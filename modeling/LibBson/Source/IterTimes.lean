import LibBson.Source.AppendExact
import LibBson.Source.BuildRuns
import LibBson.Source.DecodeLaws

/-!
# Times in a document

The accessors of a date as seconds, and the element that the last append left.
Source: bson-iter.h:390-418, bson-iter.c:1601-1697; bson.c:1679-1692, 1772-1787.
`time_t`, `tv_sec` and `tv_usec` are a `long`, of 32 or 64 bits.
-/

set_option autoImplicit false

namespace LibBson.Source
open LibBson.Library LibBson.Spec

inductive CLong where
  | bits32
  | bits64
  deriving DecidableEq

namespace CLong

/-- A conversion to `long`. -/
def cast : CLong → Int → Int
  | bits32, n => i32 (ofInt32 n)
  | bits64, n => i64 (ofInt64 n)

/-- The values of a `long`. -/
def Holds : CLong → Int → Prop
  | bits32, n => -2147483648 ≤ n ∧ n < 2147483648
  | bits64, n => -9223372036854775808 ≤ n ∧ n < 9223372036854775808

theorem cast_of_holds {w : CLong} {n : Int} (h : w.Holds n) : w.cast n = n := by
  cases w with
  | bits32 =>
    obtain ⟨hleast, hmost⟩ := h
    simp only [cast]
    unfold i32 ofInt32
    split <;> omega
  | bits64 =>
    obtain ⟨hleast, hmost⟩ := h
    simp only [cast]
    unfold i64 ofInt64
    split <;> omega

end CLong

structure Timeval where
  tvSec : Int
  tvUsec : Int
  deriving DecidableEq

section Accessors

variable (w : CLong)

/-- The `time_t` of a count of milliseconds, `value / 1000UL`. -/
def bsonIterTimeTUnsafe (value : Int) : Int :=
  match w with
  -- `int64_t` is wider than `unsigned long`
  | .bits32 => w.cast (value.tdiv 1000)
  | .bits64 => w.cast (ofInt64 value / 1000 : Nat)

def bsonIterTimeT (it : BsonIter) : Int :=
  if iterType it = some .dateTime then bsonIterTimeTUnsafe w (i64 (it.mem.le it.d1 8)) else 0

def bsonIterTimevalUnsafe (value : Int) : Timeval :=
  { tvSec := w.cast (value.tdiv 1000)
    tvUsec := value.tmod 1000 * 1000 }

def bsonIterTimeval (it : BsonIter) : Timeval :=
  if iterType it = some .dateTime then bsonIterTimevalUnsafe w (i64 (it.mem.le it.d1 8))
  else { tvSec := 0, tvUsec := 0 }

theorem bsonIterTimeT_eq {it : BsonIter} (h : iterType it = some .dateTime) :
    bsonIterTimeT w it = bsonIterTimeTUnsafe w (bsonIterDateTime it) := by
  rw [bsonIterTimeT, bsonIterDateTime, if_pos h, if_pos h]

theorem bsonIterTimeval_eq {it : BsonIter} (h : iterType it = some .dateTime) :
    bsonIterTimeval w it = bsonIterTimevalUnsafe w (bsonIterDateTime it) := by
  rw [bsonIterTimeval, bsonIterDateTime, if_pos h, if_pos h]

end Accessors

/-! ## The last element -/

/-- The iterator behind `n` steps. -/
def BsonIter.stepped : Nat → BsonIter → BsonIter
  | 0, it => it
  | n + 1, it => (bsonIterNext it).2.stepped n

/-- The number of elements. -/
def fieldCount : Doc → Nat
  | .nil => 0
  | .cons _ _ rest => fieldCount rest + 1

/-- Behind the elements of `d` come those that follow them. -/
theorem yields_stepped (d : Doc) {e : Doc} {it : BsonIter} (h : Yields (d.append e) it) :
    Yields e (it.stepped (fieldCount d)) := by
  match d with
  | .nil => exact h
  | .cons k v rest =>
    rw [Doc.append, Yields] at h
    obtain ⟨-, -, -, -, hrest⟩ := h
    exact yields_stepped rest hrest

/-- `e` is on the element that an append of `f` to some document has left: the append
returned true, and `e` is where iteration gets behind the elements that were there. -/
inductive LastAppended (fresh : Nat → Mem) (f : Field) : BsonIter → Prop
  | intro (c c' : Chain) (d : Doc) (key : Bytes) (keyLength : Int) (k : CStr) (hopen : c.Open)
    (hold : Holding c d.body) (hkey : k.bytes = textOf key keyLength)
    (hint : k.bytes.length < 2147483648)
    (hok : bsonAppendCall fresh c (.field key keyLength f) = .ok c') (it : BsonIter)
    (hinit : bsonIterInit c'.ref = (true, it)) :
    LastAppended fresh f (bsonIterNext (it.stepped (fieldCount d))).2

/-- The octets of a key that is handed over. -/
theorem keySize_of_text {key : Bytes} {keyLength : Int} {k : CStr}
    (hkey : k.bytes = textOf key keyLength) (hint : k.bytes.length < 2147483648) :
    keySize key keyLength = k.bytes.length := by
  rw [hkey] at hint ⊢
  rw [← keySize_eq]
  exact (textOf_spec key keyLength hint).1

/-- A successful append leaves the document within `BSON_MAX_SIZE`. -/
theorem append_fits {fresh : Nat → Mem} {c c' : Chain} {args : AppendArgs} (hopen : c.Open)
    (hlt : args.nBytes < 4294967296) (h : bsonAppendInternal fresh c args = .ok c') :
    c.bson.len + args.nBytes ≤ bsonMaxSize := by
  obtain ⟨hroom, -⟩ := (bsonAppendInternal_outcome fresh hopen hlt).ok c' h
  by_contra hgt
  exact hroom (Or.inl (Nat.lt_of_not_le hgt))

/-- A date is read as it was written. -/
theorem LastAppended.date {fresh : Nat → Mem} {f : Field} {ms : BitVec 64} {e : BsonIter}
    (h : LastAppended fresh f e) (hf : Means f (.dateTime ms)) :
    iterType e = some .dateTime ∧ bsonIterDateTime e = ms.toInt := by
  obtain ⟨c, c', d, key, keyLength, k, hopen, hold, hkey, hint, hok, it, hinit⟩ := h
  have hcall : CallMeans (.field key keyLength f) (.cons k (.dateTime ms) .nil) :=
    .keyed _ key keyLength f k _ rfl hkey hf
  have hbody : (Doc.cons k (.dateTime ms) .nil).body.length = k.bytes.length + 2 + 8 := by
    rw [Doc.body_cons, Doc.body_nil, List.append_nil, List.length_append, header_length,
      Value.encode, leBytes_length]
  have hfits : c.bson.len + (k.bytes.length + 2 + 8) ≤ 2147483647 := by
    have hplain : isRegex f = false ∧ valueSize f = 8 := by cases hf <;> exact ⟨rfl, rfl⟩
    have hdeclared := append_nBytes key keyLength f hplain.1
    rw [elementSize, hplain.2, keySize_of_text hkey hint, u32_of_lt (by omega)] at hdeclared
    have hroom := append_fits hopen (by omega) (show bsonAppendInternal fresh c _ = .ok c' from hok)
    unfold bsonMaxSize at hroom
    omega
  have hlen := hold.len
  obtain ⟨hold', -⟩ := bsonAppendCall_ok hcall hok hold (by omega)
  rw [← Doc.body_append] at hold'
  have hlen' := hold'.len
  rw [Doc.body_append, List.length_append] at hlen'
  have hstart : it = BsonIter.start (some c'.ref.data) c'.ref.len := by
    have hleast : ¬ c'.ref.len < 5 := by
      rw [show c'.ref.len = c'.bson.len from rfl]
      omega
    rw [bsonIterInit, if_neg hleast] at hinit
    exact (Prod.mk.inj hinit).2.symm
  have hyields : Yields (d.append (.cons k (.dateTime ms) .nil)) it := by
    have hcontent := hold'.content
    rw [frame, holds_append, leBytes_length] at hcontent
    rw [hstart]
    refine yields_of_holds _ rfl (Nat.le_refl 4) ?_ ?_ ?_ rfl
    · rw [Chain.ref, holds_shift]
      exact hcontent.2
    · simp only [BsonIter.start, Chain.ref]
      rw [Doc.body_append, List.length_append]
      omega
    · simp only [BsonIter.start, Chain.ref, maxLen]
      omega
  have hlast := yields_stepped d hyields
  rw [Yields] at hlast
  obtain ⟨-, -, htype, hreads, -⟩ := hlast
  exact ⟨htype, hreads⟩

end LibBson.Source
