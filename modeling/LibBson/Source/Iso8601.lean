import LibBson.Library.Calendar
import LibBson.Source.BsonString
import LibBson.Source.JsonText
import LibBson.Source.Jsonsl

/-!
# Dates as ISO 8601 text

Source: bson-iso8601.c:26-329, bson.c:2702-2726. `gmtime_r` and `strftime` are
those of the C library, in the calendar of `civil`. `_bson_timegm` is a
parameter. The parser keeps a pointer and how many octets remain behind it: the
pointer is an offset into `str`, and `len` is its length throughout. The octet
behind the text is the NUL that ends it.
-/

set_option autoImplicit false

namespace LibBson.Source
open LibBson.Library

/-- `struct bson_tm`, as far as it is set from a text. -/
structure BsonTm where
  tmSec : Int
  tmMin : Int
  tmHour : Int
  tmMday : Int
  tmMon : Int
  tmYear : Int
  deriving DecidableEq

def gmtime (t : Int) : BsonTm :=
  let (y, m, d) := civil (t / 86400)
  { tmSec := t % 60
    tmMin := t / 60 % 60
    tmHour := t / 3600 % 24
    tmMday := d
    tmMon := m - 1
    tmYear := y - 1900 }

/-- `%m`, `%d`, `%H`, `%M`, `%S` -/
def twoDigits (n : Int) : Bytes := [digit (n.toNat / 10), digit n.toNat]

/-- `strftime (buf, sizeof buf, "%Y-%m-%dT%H:%M:%S", tm)`; the year is not padded. -/
def strftimeIso (tm : BsonTm) : Bytes :=
  decimal (tm.tmYear + 1900).toNat ++ ascii "-" ++ twoDigits (tm.tmMon + 1) ++ ascii "-" ++
    twoDigits tm.tmMday ++ ascii "T" ++ twoDigits tm.tmHour ++ ascii ":" ++ twoDigits tm.tmMin ++
    ascii ":" ++ twoDigits tm.tmSec

/-- `"%" PRId64` -/
def printfD (n : Int) : Bytes := if n < 0 then 45 :: decimal n.natAbs else decimal n.natAbs

/-- `"%3" PRId64`: a shorter number has spaces in front. -/
def printf3D (n : Int) : Bytes :=
  List.replicate (3 - (printfD n).length) 32 ++ printfD n

/-- The calls that `_bson_iso8601_date_format` makes on `str`. -/
def bsonIso8601DateFormat (msecSinceEpoch : Int) : List StringCall :=
  let msecsPart := msecSinceEpoch.tmod 1000
  let t := msecSinceEpoch.tdiv 1000
  let buf := strftimeIso (gmtime t)
  if msecsPart ≠ 0 then [.append (buf ++ ascii "." ++ printf3D msecsPart ++ ascii "Z")]
  else [.append buf, .appendC 90]

inductive BsonJsonMode where
  | legacy
  | canonical
  | relaxed
  deriving DecidableEq

/-- The calls of `_bson_as_json_visit_date_time`. -/
def asJsonVisitDateTime (mode : BsonJsonMode) (msecSinceEpoch : Int) : List StringCall :=
  if mode = .canonical ∨ (mode = .relaxed ∧ msecSinceEpoch < 0) then
    [.append (ascii "\x7b \"$date\" : \x7b \"$numberLong\" : \""), .append (printfD msecSinceEpoch),
      .append (ascii "\" \x7d \x7d")]
  else if mode = .relaxed then
    .append (ascii "\x7b \"$date\" : \"") ::
      (bsonIso8601DateFormat msecSinceEpoch ++ [.append (ascii "\" \x7d")])
  else
    [.append (ascii "\x7b \"$date\" : "), .append (printfD msecSinceEpoch), .append (ascii " \x7d")]

/-! ## The parser -/

/-- `*out`, `*out_len` and the new `*ptr`. -/
structure DateTok where
  found : Bool
  out : Nat
  outLen : Nat
  ptr : Nat

section Parse

variable (str : Bytes)

/-- The loop of `get_tok` stops behind the first terminal, or at the end. -/
def getTok (terminals : Bytes) (ptr : Nat) : DateTok :=
  let outLen := ((str.drop ptr).takeWhile fun b => !terminals.contains b).length
  if ptr + outLen < str.length then ⟨true, ptr, outLen, ptr + outLen + 1⟩
  else ⟨false, ptr, outLen, ptr + outLen⟩

/-- The octets of a token. -/
def tokText (tok : DateTok) : Bytes := (str.drop tok.out).take tok.outLen

/-- `tok_ptr[tok_len]` -/
def tokEnd (tok : DateTok) : UInt8 := str.getD (tok.out + tok.outLen) 0

def digitsOnly (s : Bytes) : Bool := s.all isDigit

/-- The loop from the last digit on: `value += (str[len - i] - '0') * magnitude`. -/
def digitSum : Int → Bytes → Int
  | _, [] => 0
  | magnitude, b :: rest => ((b.toNat : Int) - 48) * magnitude + digitSum (magnitude * 10) rest

def parseNum (s : Bytes) (digits min max : Int) : Option Int :=
  if (0 ≤ digits ∧ (s.length : Int) ≠ digits) ∨ digitsOnly s = false then none
  else
    let value := digitSum 1 s.reverse
    if value < min ∨ max < value then none else some value

/-- `DATE_PARSE_ERR` -/
def dateParseErr {α : Type} (msg : String) : Except JsonError α :=
  .error
    { code := .readInvalidParam
      message := formatted [ascii "Could not parse \"", str, ascii "\" as date: ", ascii msg] }

def requireNum (s : Bytes) (digits min max : Int) (msg : String) : Except JsonError Int :=
  match parseNum s digits min max with
  | none => dateParseErr str msg
  | some value => .ok value

/-- The seconds: `some` token where the minute ends in `:`, and the new pointer. -/
def dateSeconds (min : DateTok) : Except JsonError (Option DateTok × Nat) :=
  if tokEnd str min = 58 then
    if str.length - min.ptr < 2 then dateParseErr str "reached end of date while looking for seconds"
    else
      let sec := getTok str (ascii ".+-Z") min.ptr
      if sec.outLen = 0 then dateParseErr str "minute ends in \":\" seconds is required"
      else .ok (some sec, sec.ptr)
  else .ok (none, min.ptr)

/-- The milliseconds, where the seconds end in `.`. -/
def dateMillisTok (sec : Option DateTok) (ptr : Nat) : Except JsonError (Option DateTok × Nat) :=
  match sec with
  | none => .ok (none, ptr)
  | some sec =>
    if tokEnd str sec = 46 then
      if str.length - ptr < 2 then
        dateParseErr str "reached end of date while looking for milliseconds"
      else
        let millis := getTok str (ascii "+-Z") ptr
        if millis.outLen = 0 then
          dateParseErr str "seconds ends in \".\", milliseconds is required"
        else .ok (some millis, millis.ptr)
    else .ok (none, ptr)

/-- `tz_adjustment` -/
def dateZone (tz : Bytes) : Except JsonError Int :=
  match tz with
  | [] => .ok 0
  | sign :: zone =>
    if sign = 90 ∧ zone = [] then .ok 0
    else if sign = 43 ∨ sign = 45 then
      if tz.length ≠ 5 ∨ digitsOnly zone = false then dateParseErr str "could not parse timezone"
      else do
        let tzHour ← requireNum str (zone.take 2) (-1) (-23) 23 "timezone hour must be at most 23"
        let tzMin ← requireNum str (zone.drop 2) (-1) 0 59 "timezone minute must be at most 59"
        let adjustment := (if sign = 45 then 1 else -1) * (tzMin * 60 + tzHour * 60 * 60)
        if -86400 < adjustment ∧ adjustment < 86400 then .ok adjustment
        else dateParseErr str "timezone offset must be less than 24 hours"
    else dateParseErr str "timezone is required"

/-- One to three digits are tenths, hundredths or thousandths. -/
def dateMillis (s : Bytes) : Except JsonError Int :=
  if 3 < s.length ∨ digitsOnly s = false then dateParseErr str "milliseconds must be an integer"
  else
    let sum := digitSum 1 s.reverse
    let millis := if s.length = 1 then sum * 100 else if s.length = 2 then sum * 10 else sum
    if millis < 0 ∨ 1000 < millis then
      dateParseErr str "milliseconds must be at least 0 and less than 1000"
    else .ok millis

def bsonIso8601DateParse (timegm : BsonTm → Int) : Except JsonError Int := do
  let yearTok := getTok str (ascii "-") 0
  let monthTok := getTok str (ascii "-") yearTok.ptr
  let dayTok := getTok str (ascii "T") monthTok.ptr
  let hourTok := getTok str (ascii ":") dayTok.ptr
  let minTok := getTok str (ascii ":+-Z") hourTok.ptr
  if (yearTok.found && monthTok.found && dayTok.found && hourTok.found && minTok.found) = false then
    dateParseErr str
      "use ISO8601 format yyyy-mm-ddThh:mm plus timezone, either \"Z\" or like \"+0500\""
  else
    let (secTok, ptr) ← dateSeconds str minTok
    let (millisTok, ptr) ← dateMillisTok str secTok ptr
    -- the pointer goes back onto the timezone
    let tz := str.drop (ptr - 1)
    let year ← requireNum str (tokText str yearTok) 4 (-9999) 9999 "year must be an integer"
    let month ← requireNum str (tokText str monthTok) 2 1 12 "month must be an integer"
    let day ← requireNum str (tokText str dayTok) 2 1 31 "day must be an integer"
    let hour ← requireNum str (tokText str hourTok) 2 0 23 "hour must be an integer"
    let min ← requireNum str (tokText str minTok) 2 0 59 "minute must be an integer"
    let sec ←
      match secTok with
      | none => .ok 0
      | some secTok => requireNum str (tokText str secTok) 2 0 60 "seconds must be an integer"
    let tzAdjustment ← dateZone str tz
    let millis ←
      match millisTok with
      | none => .ok 0
      | some millisTok => dateMillis str (tokText str millisTok)
    let posixDate : BsonTm :=
      { tmSec := sec, tmMin := min, tmHour := hour, tmMday := day, tmMon := month - 1,
        tmYear := year - 1900 }
    .ok (1000 * timegm posixDate + millis + tzAdjustment * 1000)

end Parse

end LibBson.Source
