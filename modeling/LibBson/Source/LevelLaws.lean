import LibBson.Source.IterRuns
import LibBson.Spec.Level

/-!
# Every buffer has a tree

By induction on the octets in front of an iterator: the next element and an
embedded document both have fewer of them.
-/

set_option autoImplicit false

namespace LibBson.Source
open LibBson.Library LibBson.Spec

/-- An embedded document lies behind the key and in front of the next element. -/
structure Inside (it e : BsonIter) (p : Slice) : Prop where
  start : it.nextOff + 2 ≤ p.off
  stop : p.off + p.len ≤ e.nextOff
  nonempty : e.nextOff < it.len

theorem bsonIterDocument_of_type {e : BsonIter} (h : iterType e = some .document) :
    bsonIterDocument e = some { off := e.d1, len := e.mem.le e.d1 4 } := if_pos h

theorem bsonIterArray_of_type {e : BsonIter} (h : iterType e = some .array) :
    bsonIterArray e = some { off := e.d1, len := e.mem.le e.d1 4 } := if_pos h

theorem inside_document {it e : BsonIter} {m : Mem} {o : Nat} {t : BsonType} {p : Slice}
    (he : Element m it e o t) (h : bsonIterDocument e = some p) : Inside it e p := by
  have htype := he.iterType_eq
  unfold bsonIterDocument at h
  split at h
  · next ht =>
    obtain rfl : t = .document := Option.some.inj (htype.symm.trans ht)
    cases h
    have hd : e.d1 = o := he.fields
    have hstop := he.nested_len (Or.inl rfl)
    exact ⟨by simp only [hd]; exact he.keyEnd, by simp only [hd, he.mem_eq]; omega, he.stop⟩
  · cases h

theorem inside_array {it e : BsonIter} {m : Mem} {o : Nat} {t : BsonType} {p : Slice}
    (he : Element m it e o t) (h : bsonIterArray e = some p) : Inside it e p := by
  have htype := he.iterType_eq
  unfold bsonIterArray at h
  split at h
  · next ht =>
    obtain rfl : t = .array := Option.some.inj (htype.symm.trans ht)
    cases h
    have hd : e.d1 = o := he.fields
    have hstop := he.nested_len (Or.inr rfl)
    exact ⟨by simp only [hd]; exact he.keyEnd, by simp only [hd, he.mem_eq]; omega, he.stop⟩
  · cases h

theorem inside_codewscope {it e : BsonIter} {m : Mem} {o : Nat} {t : BsonType} {p q : Slice}
    (he : Element m it e o t) (h : bsonIterCodewscope e = some (p, q)) : Inside it e q := by
  have htype := he.iterType_eq
  unfold bsonIterCodewscope at h
  split at h
  · next ht =>
    obtain rfl : t = .codewscope := Option.some.inj (htype.symm.trans ht)
    cases h
    obtain ⟨-, -, -, hd4⟩ : e.d1 = o ∧ e.d2 = o + 4 ∧ e.d3 = o + 8 ∧
      e.d4 = o + 8 + m.le (o + 4) 4 := he.fields
    obtain ⟨-, -, -, -, hstop⟩ : 14 ≤ m.le o 4 ∧ e.nextOff = o + m.le o 4 ∧ 1 ≤ m.le (o + 4) 4 ∧
      5 ≤ m.le (o + 8 + m.le (o + 4) 4) 4 ∧
      e.nextOff = o + 8 + m.le (o + 4) 4 + m.le (o + 8 + m.le (o + 4) 4) 4 := he.layout
    have hkey := he.keyEnd
    exact ⟨by simp only [hd4]; omega, by simp only [hd4, he.mem_eq]; omega, he.stop⟩
  · cases h

/-- A value accessor answers on its own type. -/
theorem exists_shows {it e : BsonIter} {m : Mem} {o : Nat} {t : BsonType}
    (he : Element m it e o t)
    (hchild : ∀ p, Inside it e p → ∃ l, Sees (childIter e p) l) : ∃ c, Shows e c := by
  have htype := he.iterType_eq
  cases t
  case utf8 => exact ⟨_, .utf8 e _ (if_pos htype)⟩
  case code => exact ⟨_, .code e _ (if_pos htype)⟩
  case symbol => exact ⟨_, .symbol e _ (if_pos htype)⟩
  case dbpointer => exact ⟨_, .dbpointer e _ _ (if_pos htype)⟩
  case regex => exact ⟨_, .regex e _ _ (if_pos htype)⟩
  case document =>
    have hp := bsonIterDocument_of_type htype
    obtain ⟨l, hl⟩ := hchild _ (inside_document he hp)
    exact ⟨_, .document e _ l hp hl⟩
  case array =>
    have hp := bsonIterArray_of_type htype
    obtain ⟨l, hl⟩ := hchild _ (inside_array he hp)
    exact ⟨_, .array e _ l hp hl⟩
  case codewscope =>
    have hp : bsonIterCodewscope e = some _ := if_pos htype
    obtain ⟨l, hl⟩ := hchild _ (inside_codewscope he hp)
    exact ⟨_, .codewscope e _ _ l hp hl⟩
  case eod => exact absurd he.layout id
  all_goals exact ⟨_, .plain e _ htype rfl⟩

theorem exists_sees_of_le (n : Nat) {it : BsonIter} {m : Mem} (hraw : it.raw = some m)
    (h4 : 4 ≤ it.nextOff) (hmax : it.len ≤ maxLen) (hn : it.len - it.nextOff ≤ n) :
    ∃ l, Sees it l := by
  induction n generalizing it m with
  | zero =>
    cases hok : (bsonIterNextInternal it).ok with
    | false => exact ⟨_, .stop it hok⟩
    | true =>
      obtain ⟨o, t, he⟩ := element_of_next hraw h4 hmax hok
      have hp := he.progress
      omega
  | succ n ih =>
    cases hok : (bsonIterNextInternal it).ok with
    | false => exact ⟨_, .stop it hok⟩
    | true =>
      obtain ⟨o, t, he⟩ := element_of_next hraw h4 hmax hok
      have hp := he.progress
      have hnext : (bsonIterNext it).2.raw = some m := he.raw
      obtain ⟨rest, hrest⟩ := ih hnext
        (by simp only [bsonIterNext]; omega) (by simp only [bsonIterNext, he.len]; exact hmax)
        (by simp only [bsonIterNext, he.len]; omega)
      obtain ⟨c, hc⟩ := exists_shows he fun p hin => by
        have h1 := hin.start
        have h2 := hin.stop
        have h3 := hin.nonempty
        exact ih rfl (Nat.le_refl 4) (by simp only [childIter, BsonIter.start]; omega)
          (by simp only [childIter, BsonIter.start]; omega)
      exact ⟨_, .field it c rest hok hc hrest⟩

/-- The iterator `bson_iter_init` starts with has a tree. -/
theorem exists_sees (b : BsonRef) (hmax : b.len ≤ maxLen) :
    ∃ l, Sees (BsonIter.start (some b.data) b.len) l :=
  exists_sees_of_le _ rfl (Nat.le_refl 4) hmax (Nat.le_refl _)

end LibBson.Source
