import LibBson.Source.JsonReader

/-!
# The reader on a text in one piece

What `bson_json_reader_read` does when a token is a slice of the text: the actions
of jsonsl come to a list of tokens, and a read runs the callbacks over them up to
the end of the document. `JsonFeed` connects this to the buffers of the reader.
Source: bson-json.c:1786-2097.
-/

set_option autoImplicit false

namespace LibBson.Source
open LibBson.Library

inductive JsonToken (J : Type) where
  | event (e : JsonEvent)
  /-- The text is not JSON. -/
  | error (message : List Bytes)
  /-- The next document begins: the parser there, and the text from there on. -/
  | restart (json : J) (rest : Bytes)
  | halt (halt : JsonHalt)

/-- How the tokens of a document end. -/
inductive JsonEnding (J : Type) where
  | exhausted (p : JsonParse)
  | failed (p : JsonParse)
  | restarted (p : JsonParse) (json : J) (rest : Bytes)

section Tokens

variable {J : Type} (lex : Jsonsl J)

/-- The text of a token from `posBegin` on, when `pre` has been read. -/
def tokenText (pre : Bytes) (posBegin : Nat) (next : Bytes → JsonToken J) : JsonToken J :=
  if pre.length ≤ posBegin then .halt .assertFailed else next (pre.drop posBegin)

/-- A hash key or a string. -/
def quotedToken (pre : Bytes) (posBegin : Nat) (event : Bytes → JsonEvent) : JsonToken J :=
  tokenText pre posBegin fun text =>
    if text.headD 0 ≠ 34 then .halt .assertFailed
    else
      match lex.unescape text.tail with
      | .error err =>
        .error [ascii "error near position ", decimal posBegin, ascii ": \"", err.name, ascii "\""]
      | .ok val => .event (event val)

def popToken (pre : Bytes) (state : JsonslState) : JsonToken J :=
  match state.type with
  | .hkey => quotedToken lex pre state.posBegin .key
  | .string => quotedToken lex pre state.posBegin .string
  | .object => .event .endMap
  | .list => .event .endArray
  | .special =>
    tokenText pre state.posBegin fun text =>
      .event (.special state.numNoInt state.numeric state.signed state.boolean state.null
        state.nelem text)

/-- The tokens of the actions on the character `c`, with the parser behind it. -/
def actionTokens (json : J) (pre : Bytes) (c : UInt8) (rest : Bytes) :
    List JsonslAction → List (JsonToken J)
  | [] => []
  | .error err :: as =>
    (if err = .cantInsert ∧ c = 123 then .restart json (c :: rest)
      else
        .error [ascii "Got parse error at \"", [c], ascii "\", position ", decimal pre.length,
          ascii ": \"", err.name, ascii "\""]) :: actionTokens json pre c rest as
  | .push .object _ :: as => .event .startMap :: actionTokens json pre c rest as
  | .push .list _ :: as => .event .startArray :: actionTokens json pre c rest as
  | .push _ _ :: as => actionTokens json pre c rest as
  | .pop state :: as => popToken lex pre state :: actionTokens json pre c rest as

/-- The tokens of a text behind `pre`. -/
def textTokens (json : J) (pre : Bytes) : Bytes → List (JsonToken J)
  | [] => []
  | c :: rest =>
    let (actions, json) := lex.feed json pre.length c
    actionTokens lex json pre c rest actions ++ textTokens json (pre ++ [c]) rest

end Tokens

namespace JsonParse

/-- `bson_json_reader_new` -/
def new : JsonParse :=
  { docs := { opened := [], left := fun _ => .zeroed, calls := 0 }, bson := .zeroed }

section Run

variable {J : Type} (fresh : JsonHeap) (dec : JsonDecoders) (lex : Jsonsl J)

/-- Run the callbacks over the tokens of a document. -/
def runTokens (p : JsonParse) : List (JsonToken J) → Except JsonHalt (JsonEnding J)
  | [] => .ok (.exhausted p)
  | .halt halt :: _ => .error halt
  | .error message :: _ =>
    .ok (.failed
      { p with
        bson :=
          { p.bson with
            error := some { code := .readCorruptJs, message := formatted message } } })
  | .restart json rest :: _ => .ok (.restarted p json rest)
  | .event e :: ts =>
    match p.step fresh dec e with
    | .error halt => .error halt
    | .ok p => if p.bson.error.isSome then .ok (.failed p) else p.runTokens ts

/-- What a read sets up. -/
def start (p : JsonParse) : JsonParse :=
  { docs :=
      { p.docs.counted with opened := [some (bsonInit (fresh.document p.docs.calls 0))] }
    bson := { p.bson with depth := 0, readState := .regular, error := none } }

/-- The octets of the caller's document. -/
def document (p : JsonParse) : Option Bytes :=
  p.docs.innermost.map fun c => c.ref.data.slice 0 c.ref.len

/-- The results of reading on in a text, at most `n`. -/
def textResults : Nat → JsonParse → J → Bytes → List JsonReader.Result
  | 0, _, _, _ => []
  | n + 1, p, json, text =>
    let finish (p : JsonParse) (next : List JsonReader.Result) : List JsonReader.Result :=
      if p.bson.readState ≠ .done then
        [.error (p.bson.corrupt [ascii "Incomplete JSON"]).error]
      else .document p.document :: next
    match (p.start fresh).runTokens fresh dec (textTokens lex json [] text) with
    | .error halt => [.halted halt]
    | .ok (.exhausted p) =>
      if text = [] then [.done] else finish p (textResults n p (lex.reset json) [])
    | .ok (.failed p) => [.error p.bson.error]
    | .ok (.restarted p json rest) => finish p (textResults n p (lex.reset json) rest)

end Run

end JsonParse

/-! ## Tokens do not overlap -/

/-- The token that is open behind the actions on the character `c` at `pos`: where it
begins, and whether it is quoted. `none` if the actions are out of order: a token
begins inside another, or ends where none began. -/
def tokenAfter (pos : Nat) (c : UInt8) :
    Option (Nat × Bool) → List JsonslAction → Option (Option (Nat × Bool))
  | tok, [] => some tok
  | tok, .error err :: _ =>
    if err = .cantInsert ∧ c = 123 ∧ tok.isSome then none else some none
  | tok, .push type b :: as =>
    match tok, type with
    | none, .object | none, .list => tokenAfter pos c none as
    | none, .special => if b = pos then tokenAfter pos c (some (b, false)) as else none
    | none, .string | none, .hkey =>
      if b = pos ∧ c = 34 then tokenAfter pos c (some (b, true)) as else none
    | some _, _ => none
  | tok, .pop state :: as =>
    match tok, state.type with
    | none, .object | none, .list => tokenAfter pos c none as
    | some (b, quoted), .special =>
      if b = state.posBegin ∧ b < pos ∧ quoted = false then tokenAfter pos c none as else none
    | some (b, quoted), .string | some (b, quoted), .hkey =>
      if b = state.posBegin ∧ b < pos ∧ quoted = true then tokenAfter pos c none as else none
    | _, _ => none

def JsonslAction.isError : JsonslAction → Bool
  | .error _ => true
  | _ => false

namespace Jsonsl

variable {J : Type} (lex : Jsonsl J)

/-- The actions on a text, up to the first error, are in order. -/
def TokensFrom (j : J) (pos : Nat) (tok : Option (Nat × Bool)) : Bytes → Prop
  | [] => True
  | c :: rest =>
    ∃ tok', tokenAfter pos c tok (lex.feed j pos c).1 = some tok' ∧
      ((lex.feed j pos c).1.any JsonslAction.isError = false →
        TokensFrom (lex.feed j pos c).2 (pos + 1) tok' rest)

/-- The parsers that resets and characters lead to. -/
inductive Reachable : J → Prop
  | zeroed : Reachable lex.zeroed
  | reset (j : J) (h : Reachable j) : Reachable (lex.reset j)
  | feed (j : J) (pos : Nat) (c : UInt8) (h : Reachable j) : Reachable (lex.feed j pos c).2

/-- A token has one push and one pop, and its `pos_begin` is the position of the push. -/
def TokensInOrder : Prop :=
  ∀ j, lex.Reachable j → ∀ text, lex.TokensFrom (lex.reset j) 0 none text

end Jsonsl

end LibBson.Source
