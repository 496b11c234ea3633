import LibBson.Source.JsonTokens

/-!
# Conditions on a run

What it means that every callback of a run over a text is invoked where a condition
holds, up to the first error. Source: bson-json.c:1850-1976, 2003-2097.
-/

set_option autoImplicit false

namespace LibBson.Source
open LibBson.Library

namespace JsonParse

section Run

variable {J : Type} (fresh : JsonHeap) (dec : JsonDecoders) (lex : Jsonsl J)
variable (cond : JsonParse → JsonEvent → Prop)

/-- The condition holds in front of each callback of a document. -/
def RunMeets : JsonParse → List (JsonToken J) → Prop
  | p, .event e :: ts =>
    cond p e ∧ ∀ q, p.step fresh dec e = .ok q → q.bson.error = none → RunMeets q ts
  | _, _ => True

variable {fresh dec cond}

variable (fresh dec cond)

/-- It holds in front of each callback of the first `n` documents of a text. -/
def TextMeets : Nat → JsonParse → J → Bytes → Prop
  | 0, _, _, _ => True
  | n + 1, p, json, text =>
    RunMeets fresh dec cond (p.start fresh) (textTokens lex json [] text) ∧
      ∀ q json' rest,
        (p.start fresh).runTokens fresh dec (textTokens lex json [] text) =
          .ok (.restarted q json' rest) →
        q.bson.readState = .done → TextMeets n q (lex.reset json') rest

section Decide

variable {cond} [∀ p e, Decidable (cond p e)]

/-- The run decides it. -/
instance decidableRunMeets (p : JsonParse) (ts : List (JsonToken J)) :
    Decidable (RunMeets fresh dec cond p ts) :=
  match ts with
  | [] => isTrue trivial
  | .halt _ :: _ => isTrue trivial
  | .error _ :: _ => isTrue trivial
  | .restart _ _ :: _ => isTrue trivial
  | .event e :: ts =>
    match hstep : p.step fresh dec e with
    | .error _ =>
      decidable_of_iff (cond p e) <| by
        simp only [RunMeets, hstep, reduceCtorEq, false_implies, implies_true, and_true]
    | .ok q =>
      have := decidableRunMeets q ts
      decidable_of_iff (cond p e ∧ (q.bson.error = none → RunMeets fresh dec cond q ts)) <| by
        simp only [RunMeets, hstep, Except.ok.injEq, forall_eq']

instance decidableTextMeets (n : Nat) (p : JsonParse) (json : J) (text : Bytes) :
    Decidable (TextMeets fresh dec lex cond n p json text) :=
  match n with
  | 0 => isTrue trivial
  | n + 1 =>
    match hrun : (p.start fresh).runTokens fresh dec (textTokens lex json [] text) with
    | .ok (.restarted q json' rest) =>
      have := decidableTextMeets n q (lex.reset json') rest
      decidable_of_iff (RunMeets fresh dec cond (p.start fresh) (textTokens lex json [] text) ∧
        (q.bson.readState = .done → TextMeets fresh dec lex cond n q (lex.reset json') rest)) <| by
          simp only [TextMeets, hrun, Except.ok.injEq, JsonEnding.restarted.injEq]
          exact and_congr_right' ⟨fun h _ _ _ hq => by
            obtain ⟨rfl, rfl, rfl⟩ := hq
            exact h, fun h => h q json' rest ⟨rfl, rfl, rfl⟩⟩
    | .ok (.exhausted _) =>
      decidable_of_iff (RunMeets fresh dec cond (p.start fresh) (textTokens lex json [] text)) <| by
        simp only [TextMeets, hrun, Except.ok.injEq, reduceCtorEq, false_implies, implies_true,
          and_true]
    | .ok (.failed _) =>
      decidable_of_iff (RunMeets fresh dec cond (p.start fresh) (textTokens lex json [] text)) <| by
        simp only [TextMeets, hrun, Except.ok.injEq, reduceCtorEq, false_implies, implies_true,
          and_true]
    | .error _ =>
      decidable_of_iff (RunMeets fresh dec cond (p.start fresh) (textTokens lex json [] text)) <| by
        simp only [TextMeets, hrun, reduceCtorEq, false_implies, implies_true, and_true]

end Decide

end Run

end JsonParse

/-- A run of the callbacks comes from the tokens `ts` to `us`, without an error. -/
inductive JsonParse.Reaches {J : Type} (fresh : JsonHeap) (dec : JsonDecoders) :
    JsonParse → List (JsonToken J) → JsonParse → List (JsonToken J) → Prop
  | here (p : JsonParse) (ts : List (JsonToken J)) : Reaches fresh dec p ts p ts
  | event {p q r : JsonParse} {e : JsonEvent} {ts us : List (JsonToken J)}
      (hstep : p.step fresh dec e = .ok q) (herror : q.bson.error = none)
      (hrest : Reaches fresh dec q ts r us) : Reaches fresh dec p (.event e :: ts) r us

theorem JsonParse.Reaches.error {J : Type} {fresh : JsonHeap} {dec : JsonDecoders}
    {p q : JsonParse} {ts us : List (JsonToken J)} (h : p.Reaches fresh dec ts q us)
    (hp : p.bson.error = none) : q.bson.error = none := by
  induction h with
  | here => exact hp
  | event _ herror _ ih => exact ih herror

/-- The parser behind a text that begins at `pos`. -/
def Jsonsl.after {J : Type} (lex : Jsonsl J) (j : J) (pos : Nat) : Bytes → J
  | [] => j
  | c :: rest => lex.after (lex.feed j pos c).2 (pos + 1) rest

end LibBson.Source
