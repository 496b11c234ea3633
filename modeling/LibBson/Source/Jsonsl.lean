import LibBson.Library.Ascii

/-!
# The tokenizer jsonsl

Source: jsonsl.c:104-136 (new, reset), 148-217 (fast paths), 222-727
(`jsonsl_feed`), 1220-1440 (`jsonsl_util_unescape`), 1442-1640 (tables); jsonsl.h.
`JSONSL_PARSE_NAN` is defined. `Jsonsl` is what a user sees of a tokenizer: the
callbacks invoked for a character, in order. `jsonsl` is the one of the source; its
fast paths take the characters one at a time, and the error callback returns 0.
-/

set_option autoImplicit false

namespace LibBson.Source
open LibBson.Library

/-- The types of `jsonsl_type_t` that have callbacks. -/
inductive JsonslType where
  | object | list | string | hkey | special
  deriving DecidableEq

/-- `jsonsl_error_t`, by what `jsonsl_strerror` prints. -/
structure JsonslError where
  name : Bytes
  deriving DecidableEq

/-- `JSONSL_ERROR_CANT_INSERT` -/
def JsonslError.cantInsert : JsonslError := { name := ascii "CANT_INSERT" }

/-- The fields of a `jsonsl_state_st` a pop callback reads; `pos_cur` is the position
of the character, and the flags are those of `special_flags` a user tests. -/
structure JsonslState where
  type : JsonslType
  posBegin : Nat
  numNoInt : Bool
  numeric : Bool
  signed : Bool
  boolean : Bool
  null : Bool
  nelem : Nat

/-- A callback invoked by `jsonsl_feed`, which returns behind an error. -/
inductive JsonslAction where
  | push (type : JsonslType) (posBegin : Nat)
  | pop (state : JsonslState)
  | error (err : JsonslError)

structure Jsonsl (J : Type) where
  /-- A zeroed `jsonsl_t`. -/
  zeroed : J
  /-- `jsonsl_reset` without `pos` and `stopfl`. -/
  reset : J → J
  /-- One turn of the loop of `jsonsl_feed` at position `pos`. -/
  feed : J → Nat → UInt8 → List JsonslAction × J
  /-- `jsonsl_util_unescape` -/
  unescape : Bytes → Except JsonslError Bytes

/-! ## Tables -/

/-- `JSONSL_SPECIALf_*` -/
def specialSigned : Nat := 1
def specialUnsigned : Nat := 2
def specialTrue : Nat := 4
def specialFalse : Nat := 8
def specialNull : Nat := 16
def specialFloat : Nat := 32
def specialExponent : Nat := 64
def specialNan : Nat := 256
def specialInf : Nat := 512
def specialZero : Nat := 2048 ||| specialUnsigned
def specialDash : Nat := 4096
def specialNegInf : Nat := specialInf ||| specialSigned
def specialNumeric : Nat := specialSigned ||| specialUnsigned
def specialBoolean : Nat := specialTrue ||| specialFalse
def specialNumNoInt : Nat := specialFloat ||| specialExponent ||| specialNan ||| specialInf

def isDigit (c : UInt8) : Bool := 48 ≤ c && c ≤ 57

/-- `Special_Table` -/
def extractSpecial (c : UInt8) : Nat :=
  if c = 45 then specialDash
  else if c = 48 then specialZero
  else if isDigit c then specialUnsigned
  else if c = 73 ∨ c = 105 then specialInf
  else if c = 78 then specialNan
  else if c = 102 then specialFalse
  else if c = 110 then specialNull ||| specialNan
  else if c = 116 then specialTrue
  else 0

/-- `Allowed_Whitespace` -/
def isAllowedWhitespace (c : UInt8) : Bool := c ∈ ([9, 10, 13, 32] : Bytes)

/-- `Special_Endings` -/
def isSpecialEnd (c : UInt8) : Bool :=
  c ∈ ([9, 10, 13, 32, 34, 44, 58, 91, 92, 93, 123, 125] : Bytes)

/-- Not in `String_No_Passthrough`. -/
def isSimpleChar (c : UInt8) : Bool := !(c < 20 || c == 34 || c == 92)

/-- `Allowed_Escapes`: `"`, `/`, `\`, b, f, n, r, t, u. -/
def isAllowedEscape (c : UInt8) : Bool := c ∈ ([34, 47, 92, 98, 102, 110, 114, 116, 117] : Bytes)

/-- `Escape_Equivs`, and the character itself where that is zero. -/
def escapeEquiv (c : UInt8) : UInt8 :=
  if c = 98 then 8
  else if c = 102 then 12
  else if c = 110 then 10
  else if c = 114 then 13
  else if c = 116 then 9
  else c

/-! ## `jsonsl_feed` -/

/-- `jsonsl_type_t` of a stack entry. -/
inductive JsonslEntryType where
  | root
  | container (object : Bool)
  | text (hkey : Bool)
  | special
  deriving DecidableEq

/-- `struct jsonsl_state_st` -/
structure JsonslEntry where
  type : JsonslEntryType
  nelem : Nat
  posBegin : Nat
  /-- Also the length of a special. -/
  nescapes : Nat
  specialFlags : Nat

structure JsonslSt where
  level : Nat
  stack : Nat → JsonslEntry
  tokLast : UInt8
  canInsert : Bool
  expecting : UInt8
  inEscape : Bool

namespace JsonslSt

/-- `jsonsl_new` -/
def zeroed : JsonslSt :=
  { level := 0
    stack := fun _ => { type := .root, nelem := 0, posBegin := 0, nescapes := 0, specialFlags := 0 }
    tokLast := 0
    canInsert := false
    expecting := 0
    inEscape := false }

/-- `jsonsl_reset` -/
def reset (j : JsonslSt) : JsonslSt :=
  { j with level := 0, tokLast := 0, canInsert := true, expecting := 0, inEscape := false }

/-- `levels_max`, the argument of `jsonsl_new`. -/
def levelsMax : Nat := 100

/-- `*state` -/
def top (j : JsonslSt) : JsonslEntry := j.stack j.level

def setTop (j : JsonslSt) (e : JsonslEntry) : JsonslSt :=
  { j with stack := fun i => if i = j.level then e else j.stack i }

/-- `INVOKE_ERROR` -/
def invokeError (j : JsonslSt) (name : String) : List JsonslAction × JsonslSt :=
  ([.error { name := ascii name }], j)

/-- `STACK_PUSH` and what follows it. -/
def stackPush (j : JsonslSt) (pos : Nat) (next : JsonslSt → List JsonslAction × JsonslSt) :
    List JsonslAction × JsonslSt :=
  if j.level ≥ levelsMax - 1 then j.invokeError "LEVELS_EXCEEDED"
  else
    let j := { j with level := j.level + 1 }
    next (j.setTop { j.top with posBegin := pos })


/-- The state a pop callback sees. -/
def popped (e : JsonslEntry) (type : JsonslType) : JsonslState :=
  { type := type
    posBegin := e.posBegin
    numNoInt := e.specialFlags &&& specialNumNoInt != 0
    numeric := e.specialFlags &&& specialNumeric != 0
    signed := e.specialFlags &&& specialSigned != 0
    boolean := e.specialFlags &&& specialBoolean != 0
    null := e.specialFlags &&& specialNull != 0
    nelem := e.nelem }

/-- `CALLBACK_AND_POP` -/
def callbackAndPop (j : JsonslSt) (type : JsonslType) : List JsonslAction × JsonslSt :=
  ([.pop (popped j.top type)],
    { j.setTop { j.top with nescapes := 0 } with level := j.level - 1 })

/-- `GT_QUOTE` -/
def quote (j : JsonslSt) (pos : Nat) : List JsonslAction × JsonslSt :=
  let j := { j with canInsert := false }
  match j.top.type with
  | .text hkey => j.callbackAndPop (if hkey then .hkey else .string)
  | .container true =>
    let j := j.setTop { j.top with nelem := j.top.nelem + 1 }
    if (j.top.nelem - 1) % 2 = 1 then
      -- odd, this must be a hash value
      if j.tokLast ≠ 58 then j.invokeError "MISSING_TOKEN"
      else
        ({ j with expecting := 44, tokLast := 0 }).stackPush pos fun j =>
          ([.push .string pos], j.setTop { j.top with type := .text false })
    else if j.expecting ≠ 34 then j.invokeError "STRAY_TOKEN"
    else
      ({ j with tokLast := 0, expecting := 58 }).stackPush pos fun j =>
        ([.push .hkey pos], j.setTop { j.top with type := .text true })
  | .container false =>
    (j.setTop { j.top with nelem := j.top.nelem + 1 }).stackPush pos fun j =>
      ([.push .string pos],
        { j.setTop { j.top with type := .text false } with expecting := 44, tokLast := 0 })
  | .special => j.invokeError "STRAY_TOKEN"
  | .root => j.invokeError "STRING_OUTSIDE_CONTAINER"

/-- `ENSURE_HVAL` fails. -/
def lacksKey (j : JsonslSt) : Bool := j.top.nelem % 2 == 0 && j.top.type == .container true

/-- `GT_SPECIAL_BEGIN` -/
def specialBegin (j : JsonslSt) (pos : Nat) (c : UInt8) : List JsonslAction × JsonslSt :=
  let flags := extractSpecial c
  if flags = 0 then
    if c = 0 then j.invokeError "FOUND_NULL_BYTE"
    else if c < 0x20 then j.invokeError "WEIRD_WHITESPACE"
    else j.invokeError "SPECIAL_EXPECTED"
  else if j.lacksKey then j.invokeError "HKEY_EXPECTED"
  else
    let j := j.setTop { j.top with nelem := j.top.nelem + 1 }
    if j.canInsert = false then j.invokeError "CANT_INSERT"
    else
      j.stackPush pos fun j =>
        let number := flags = specialUnsigned
        ([.push .special pos],
          { j.setTop
            { j.top with
              type := .special
              specialFlags := flags
              nescapes := 1
              nelem := if number then (c - 48).toNat else 0 } with
            tokLast := if number then 49 else 45 })

/-- `{` and `[` -/
def openContainer (j : JsonslSt) (pos : Nat) (object : Bool) : List JsonslAction × JsonslSt :=
  if j.canInsert = false then j.invokeError "CANT_INSERT"
  else if j.lacksKey then j.invokeError "HKEY_EXPECTED"
  else
    (j.setTop { j.top with nelem := j.top.nelem + 1 }).stackPush pos fun j =>
      ([.push (if object then .object else .list) pos],
        { j.setTop { j.top with type := .container object, nelem := 0 } with
          canInsert := true
          expecting := if object then 34 else j.expecting
          tokLast := 0 })

/-- `}` and `]` -/
def closeContainer (j : JsonslSt) (object : Bool) : List JsonslAction × JsonslSt :=
  if j.tokLast = 44 then j.invokeError "TRAILING_COMMA"
  else
    let state := j.top
    let j := { j with canInsert := false, level := j.level - 1, expecting := 44, tokLast := 0 }
    if state.type ≠ .container object then j.invokeError "BRACKET_MISMATCH"
    else if object ∧ state.nelem % 2 ≠ 0 then j.invokeError "VALUE_EXPECTED"
    else ([.pop (popped state (if object then .object else .list))], j)

/-- `GT_STRUCTURAL_TOKEN` -/
def structuralToken (j : JsonslSt) (pos : Nat) (c : UInt8) : List JsonslAction × JsonslSt :=
  if c = 58 then
    if j.expecting ≠ c then j.invokeError "STRAY_TOKEN"
    else ([], { j with tokLast := 58, canInsert := true, expecting := 34 })
  else if c = 44 then
    if j.expecting ≠ c then j.invokeError "STRAY_TOKEN"
    else
      ([], { j with
        canInsert := j.canInsert || j.top.type != .container true
        tokLast := 44
        expecting := 34 })
  else if c = 123 then j.openContainer pos true
  else if c = 91 then j.openContainer pos false
  else if c = 125 then j.closeContainer true
  else if c = 93 then j.closeContainer false
  else j.specialBegin pos c

/-- `special_flags` is only the sign. -/
def isNormalNumber (flags : Nat) : Bool := flags == specialUnsigned || flags == specialSigned

/-- The check of a special that ends, and the entry as it is handed over. -/
def specialChecked (j : JsonslSt) : Except String JsonslEntry :=
  let e := j.top
  let flags := e.specialFlags
  if isNormalNumber flags then .ok e
  else if flags = specialZero ∨ flags = specialZero ||| specialSigned then
    -- 0 is unsigned!
    .ok { e with specialFlags := specialUnsigned }
  else if flags = specialDash then .error "INVALID_NUMBER"
  else if flags &&& specialInf ≠ 0 then
    if e.nescapes ≠ 8 then .error "SPECIAL_INCOMPLETE" else .ok { e with nelem := 1 }
  else if flags &&& specialNumeric ≠ 0 then
    if j.tokLast ≠ 49 then .error "INVALID_NUMBER" else .ok e
  else if flags = specialTrue then
    if e.nescapes ≠ 4 then .error "SPECIAL_INCOMPLETE" else .ok { e with nelem := 1 }
  else if flags = specialFalse then
    if e.nescapes ≠ 5 then .error "SPECIAL_INCOMPLETE" else .ok e
  else if flags = specialNull then
    if e.nescapes ≠ 4 then .error "SPECIAL_INCOMPLETE" else .ok e
  else .ok e

/-- `GT_SPECIAL_POP` -/
def specialPop (j : JsonslSt) (pos : Nat) (c : UInt8) : List JsonslAction × JsonslSt :=
  match j.specialChecked with
  | .error name => ({ j with canInsert := false }).invokeError name
  | .ok e =>
    let (actions, j) := (({ j with canInsert := false }).setTop e).callbackAndPop .special
    let j := { j with tokLast := 0, expecting := 44 }
    if isAllowedWhitespace c then (actions, j)
    else
      let (more, j) := j.structuralToken pos c
      (actions ++ more, j)

/-- `GT_SPECIAL_NUMERIC` -/
def specialNumericChar (j : JsonslSt) (pos : Nat) (c : UInt8) : List JsonslAction × JsonslSt :=
  let flags := j.top.specialFlags
  if isDigit c then ([], { j with tokLast := 49 })
  else if c = 46 then
    if flags &&& specialFloat ≠ 0 then j.invokeError "INVALID_NUMBER"
    else
      ([], { j.setTop { j.top with specialFlags := flags ||| specialFloat } with tokLast := 46 })
  else if c = 101 ∨ c = 69 then
    if flags &&& specialExponent ≠ 0 then j.invokeError "INVALID_NUMBER"
    else
      ([], { j.setTop { j.top with specialFlags := flags ||| specialExponent } with tokLast := 101 })
  else if c = 45 ∨ c = 43 then
    if j.tokLast ≠ 101 then j.invokeError "INVALID_NUMBER" else ([], { j with tokLast := 45 })
  else if isSpecialEnd c then j.specialPop pos c
  else j.invokeError "INVALID_NUMBER"

def lower (c : UInt8) : UInt8 := if 65 ≤ c ∧ c ≤ 90 then c + 32 else c

/-- A character of a literal: `VERIFY_SPECIAL` and `VERIFY_SPECIAL_CI`. -/
def specialLetter (j : JsonslSt) (pos : Nat) (c : UInt8) : List JsonslAction × JsonslSt :=
  let flags := j.top.specialFlags
  let j := j.setTop { j.top with nescapes := j.top.nescapes + 1 }
  let expected (lit : String) : UInt8 := (ascii lit).getD (pos - j.top.posBegin) 0
  let verify (c : UInt8) (lit : String) : List JsonslAction × JsonslSt :=
    if c ≠ expected lit then j.invokeError "SPECIAL_EXPECTED" else ([], j)
  if flags = specialTrue then verify c "true"
  else if flags = specialFalse then verify c "false"
  else if flags = specialNull then verify c "null"
  else if flags = specialInf then verify (lower c) "infinity"
  else if flags = specialNegInf then verify (lower c) "-infinity"
  else if flags = specialNan then verify (lower c) "nan"
  else if flags &&& (specialNull ||| specialNan) ≠ 0 then
    -- previous char was "n", are we parsing null or nan?
    let flags := if c ≠ 117 then flags - (flags &&& specialNull) else flags
    let flags := if lower c ≠ 97 then flags - (flags &&& specialNan) else flags
    ([], j.setTop { j.top with specialFlags := flags })
  else ([], j)

/-- A character in state `JSONSL_T_SPECIAL`. -/
def specialChar (j : JsonslSt) (pos : Nat) (c : UInt8) : List JsonslAction × JsonslSt :=
  let flags := j.top.specialFlags
  if isNormalNumber flags then
    if isDigit c then
      ([], j.setTop
        { j.top with nelem := (j.top.nelem * 10 + (c - 48).toNat) % 18446744073709551616 })
    else j.specialNumericChar pos c
  else if flags = specialDash then
    if c = 73 ∨ c = 105 then
      -- parsing -Infinity?
      ([], j.setTop { j.top with specialFlags := specialNegInf })
    else if isDigit c = false then j.invokeError "INVALID_NUMBER"
    else if c = 48 then ([], j.setTop { j.top with specialFlags := specialZero ||| specialSigned })
    else ([], j.setTop { j.top with specialFlags := specialSigned, nelem := (c - 48).toNat })
  else if flags = specialZero then
    if isDigit c then j.invokeError "INVALID_NUMBER"
    else (j.setTop { j.top with specialFlags := specialUnsigned }).specialNumericChar pos c
  else if flags &&& specialNumeric ≠ 0 ∧ flags &&& specialInf = 0 then j.specialNumericChar pos c
  else if isSpecialEnd c = false then j.specialLetter pos c
  else j.specialPop pos c

/-- A character in a string or a hash key. -/
def textChar (j : JsonslSt) (pos : Nat) (c : UInt8) : List JsonslAction × JsonslSt :=
  if j.inEscape then
    let j := { j with inEscape := false }
    if isAllowedEscape c then ([], j) else j.invokeError "ESCAPE_INVALID"
  else if isSimpleChar c then ([], j)
  else if c = 34 then j.quote pos
  else if c = 92 then
    ([], { j.setTop { j.top with nescapes := j.top.nescapes + 1 } with inEscape := true })
  else j.invokeError "WEIRD_WHITESPACE"

/-- One turn of the loop of `jsonsl_feed`. -/
def feed (j : JsonslSt) (pos : Nat) (c : UInt8) : List JsonslAction × JsonslSt :=
  match j.top.type with
  | .text _ => j.textChar pos c
  | .special => j.specialChar pos c
  | _ =>
    if isAllowedWhitespace c then ([], j)
    else if extractSpecial c ≠ 0 then j.specialBegin pos c
    else if c = 34 then j.quote pos
    else if c = 92 then j.invokeError "ESCAPE_OUTSIDE_STRING"
    else j.structuralToken pos c

end JsonslSt

/-! ## `jsonsl_util_unescape` -/

/-- `jsonsl__writeutf8` -/
def writeUtf8 (pt : Nat) : Bytes :=
  let octet (n : Nat) : UInt8 := UInt8.ofNat n
  if pt < 0x80 then [octet pt]
  else if pt < 0x800 then [octet (pt >>> 6 ||| 0xC0), octet (pt &&& 0x3F ||| 0x80)]
  else if pt < 0x10000 then
    [octet (pt >>> 12 ||| 0xE0), octet (pt >>> 6 &&& 0x3F ||| 0x80), octet (pt &&& 0x3F ||| 0x80)]
  else
    [octet (pt >>> 18 ||| 0xF0), octet (pt >>> 12 &&& 0x3F ||| 0x80),
      octet (pt >>> 6 &&& 0x3F ||| 0x80), octet (pt &&& 0x3F ||| 0x80)]

/-- `jsonsl__digit2int` -/
def digit2int (c : UInt8) : Option Nat :=
  if isDigit c then some (c - 48).toNat
  else if 97 ≤ c ∧ c ≤ 102 then some ((c - 97).toNat + 10)
  else if 65 ≤ c ∧ c ≤ 70 then some ((c - 65).toNat + 10)
  else none

/-- `jsonsl__get_uescape_16` -/
def getUescape16 (a b c d : UInt8) : Option Nat :=
  match digit2int a, digit2int b, digit2int c, digit2int d with
  | some a, some b, some c, some d => some (a <<< 12 ||| b <<< 8 ||| c <<< 4 ||| d)
  | _, _, _, _ => none

/-- What a `\u` escape with value `uescval` writes, and `last_codepoint` behind it. -/
def uescape (last uescval : Nat) : Except JsonslError (Bytes × Nat) :=
  if last ≠ 0 then
    if uescval < 0xDC00 ∨ uescval > 0xDFFF then .error { name := ascii "INVALID_CODEPOINT" }
    else .ok (writeUtf8 (((last &&& 0x3FF) <<< 10 ||| (uescval &&& 0x3FF)) + 0x10000), 0)
  else if uescval < 0xD800 ∨ uescval > 0xDFFF then .ok (writeUtf8 uescval, 0)
  else if uescval < 0xDC00 then .ok ([], uescval)
  else .error { name := ascii "INVALID_CODEPOINT" }

/-- The loop of `jsonsl_util_unescape_ex`; `last` is `last_codepoint`. -/
def unescapeFrom (last : Nat) : Bytes → Except JsonslError Bytes
  | [] => if last ≠ 0 then .error { name := ascii "INVALID_CODEPOINT" } else .ok []
  | c :: rest =>
    if c ≠ 92 then (unescapeFrom last rest).map (c :: ·)
    else
      match rest with
      | [] => .error { name := ascii "ESCAPE_INVALID" }
      | e :: rest =>
        if isAllowedEscape e = false then .error { name := ascii "ESCAPE_INVALID" }
        else if e ≠ 117 then (unescapeFrom last rest).map (escapeEquiv e :: ·)
        else
          match rest with
          | h0 :: h1 :: h2 :: h3 :: rest =>
            match getUescape16 h0 h1 h2 h3 with
            | none => .error { name := ascii "PERCENT_BADHEX" }
            | some uescval =>
              match uescape last uescval with
              | .error err => .error err
              | .ok (out, last) => (unescapeFrom last rest).map (out ++ ·)
          | _ => .error { name := ascii "UESCAPE_TOOSHORT" }

/-- The tokenizer of the source. -/
def jsonsl : Jsonsl JsonslSt :=
  { zeroed := JsonslSt.zeroed, reset := JsonslSt.reset, feed := JsonslSt.feed, unescape := unescapeFrom 0 }

end LibBson.Source
