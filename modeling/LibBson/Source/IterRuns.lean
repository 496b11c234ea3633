import LibBson.Source.IterLaws

/-!
# Iterators a caller can hold

`Reached b it`: starting from `bson_iter_init` on `b`, `it` is what some
sequence of `bson_iter_next` calls, interleaved with `bson_iter_recurse` into
documents and arrays, leaves. Iterators on which a step has failed are included.
-/

set_option autoImplicit false

namespace LibBson.Source
open LibBson.Library

inductive Reached (b : BsonRef) : BsonIter → Prop
  | init (it : BsonIter) (h : bsonIterInit b = (true, it)) : Reached b it
  | next (it : BsonIter) (h : Reached b it) : Reached b (bsonIterNext it).2
  | recurse (it child : BsonIter) (h : Reached b it) (hok : (bsonIterNext it).1 = true)
      (hchild : bsonIterRecurse (bsonIterNext it).2 = some child) : Reached b child

/-- What the step lemmas ask of an iterator that can still be advanced. -/
def Usable (it : BsonIter) : Prop := ∀ m, it.raw = some m → 4 ≤ it.nextOff ∧ it.len ≤ maxLen

/-- The key of the next element ends at the NUL before `o`. -/
def KeyEnds (m : Mem) (it : BsonIter) (o : Nat) : Prop :=
  it.nextOff + 2 ≤ o ∧ o ≤ it.len ∧ m (o - 1) = 0 ∧
    ∀ k, it.nextOff + 1 ≤ k → k + 1 < o → m k ≠ 0

theorem KeyEnds.unique {m : Mem} {it : BsonIter} {o p : Nat} (ho : KeyEnds m it o)
    (hp : KeyEnds m it p) : o = p := by
  obtain ⟨o1, o2, o3, o4⟩ := ho
  obtain ⟨p1, p2, p3, p4⟩ := hp
  have hop : ¬ o < p := fun hlt => p4 (o - 1) (by omega) (by omega) o3
  have hpo : ¬ p < o := fun hlt => o4 (p - 1) (by omega) (by omega) p3
  omega

theorem Element.keyEnds {m : Mem} {it e : BsonIter} {o : Nat} {t : BsonType}
    (he : Element m it e o t) : KeyEnds m it o :=
  ⟨he.keyEnd, he.inside, he.keyNul, he.keyBytes⟩

theorem Element.mem_eq {m : Mem} {it e : BsonIter} {o : Nat} {t : BsonType}
    (he : Element m it e o t) : e.mem = m := by
  simp [BsonIter.mem, he.raw]

theorem Element.iterType_eq {m : Mem} {it e : BsonIter} {o : Nat} {t : BsonType}
    (he : Element m it e o t) : iterType e = some t := by
  simp [iterType, he.mem_eq, he.type, he.typeByte]

theorem Element.type_eq {m : Mem} {it e : BsonIter} {o : Nat} {t u : BsonType}
    (he : Element m it e o t) (h : iterType e = some u) : t = u :=
  Option.some.inj (he.iterType_eq.symm.trans h)

theorem Layout.start_le {m : Mem} {len o stop : Nat} {t : BsonType}
    (h : Layout m len o stop t) : o ≤ stop := by
  cases t <;> simp only [Layout] at h
  case regex =>
    obtain ⟨i, j, h1, h2, h3, -⟩ := h
    omega
  all_goals omega

/-- A step moves the iterator on. -/
theorem Element.progress {it e : BsonIter} {m : Mem} {o : Nat} {t : BsonType}
    (he : Element m it e o t) : it.nextOff + 2 ≤ e.nextOff ∧ e.nextOff < it.len := by
  have hstart := he.layout.start_le
  have hkey := he.keyEnd
  exact ⟨by omega, he.stop⟩

theorem usable_start (raw : Option Mem) (len : Nat) (h : len ≤ maxLen) :
    Usable (BsonIter.start raw len) := fun _ _ => ⟨Nat.le_refl 4, h⟩

/-- A failed step leaves no buffer to read. -/
theorem raw_of_next_fail (it : BsonIter) (h : (bsonIterNextInternal it).ok = false) :
    (bsonIterNextInternal it).iter.raw = none := by
  unfold bsonIterNextInternal at *
  cases hraw : it.raw with
  | none => simp [hraw]
  | some m =>
    simp only [hraw, nextElement, Read.val_bind] at h ⊢
    cases hz : (Read.scanNul ((enterElement it).len - ((enterElement it).off + 1))
        ((enterElement it).off + 1)).val m with
    | none => simp [markInvalid]
    | some z =>
      simp only [hz, fillDataFields, Read.val_bind] at h ⊢
      split at h
      · simp [markInvalid]
      · split at h
        · next hstop => simp [hstop, markInvalid]
        · cases h

theorem usable_next (it : BsonIter) (h : Usable it) : Usable (bsonIterNext it).2 := by
  intro m hm
  cases hok : (bsonIterNextInternal it).ok with
  | false =>
    have hnone := raw_of_next_fail it hok
    simp only [bsonIterNext] at hm
    rw [hnone] at hm
    cases hm
  | true =>
    cases hraw : it.raw with
    | none => simp [bsonIterNextInternal, hraw] at hok
    | some m' =>
      obtain ⟨h4, hl⟩ := h m' hraw
      obtain ⟨o, t, he⟩ := element_of_next hraw h4 hl hok
      have hstart := he.layout.start_le
      have hkey := he.keyEnd
      have hlen := he.len
      exact ⟨by simp only [bsonIterNext]; omega, by simp only [bsonIterNext]; omega⟩

/-- An iterator opened by `bson_iter_recurse` starts at the value of an element
of type document or array and covers as many octets as its length word says. -/
theorem recurse_child {it child : BsonIter} {m : Mem} {o : Nat} {t : BsonType} {e : BsonIter}
    (he : Element m it e o t) (h : bsonIterRecurse e = some child) :
    (t = .document ∨ t = .array) ∧ child = BsonIter.start (some (m.shift o)) (m.le o 4) := by
  have htype := he.iterType_eq
  have hf := he.fields
  unfold bsonIterRecurse at h
  rw [htype] at h
  cases t <;> simp only [reduceCtorEq] at h
  case document =>
    have hd : e.d1 = o := hf
    simp [bsonIterDocument, htype, BsonIter.mem, he.raw, hd] at h
    exact ⟨Or.inl rfl, h.symm⟩
  case array =>
    have hd : e.d1 = o := hf
    simp [bsonIterArray, htype, BsonIter.mem, he.raw, hd] at h
    exact ⟨Or.inr rfl, h.symm⟩

/-- The extent of a nested document ends where the next element starts. -/
theorem Element.nested_len {it e : BsonIter} {m : Mem} {o : Nat} {t : BsonType}
    (he : Element m it e o t) (ht : t = .document ∨ t = .array) :
    e.nextOff = o + m.le o 4 := by
  have hlay := he.layout
  rcases ht with rfl | rfl
  · exact hlay.2
  · exact hlay.2

theorem Reached.usable {b : BsonRef} (hb : b.len ≤ maxLen) {it : BsonIter} (h : Reached b it) :
    Usable it := by
  induction h with
  | init it h =>
    unfold bsonIterInit at h
    split at h
    · cases h
    · cases h
      exact usable_start _ _ hb
  | next it _ ih => exact usable_next it ih
  | recurse it child _ hok hchild ih =>
    cases hraw : it.raw with
    | none => simp [bsonIterNext, bsonIterNextInternal, hraw] at hok
    | some m =>
      obtain ⟨h4, hl⟩ := ih m hraw
      obtain ⟨o, t, he⟩ := element_of_next hraw h4 hl hok
      obtain ⟨ht, rfl⟩ := recurse_child he hchild
      have hn := he.nested_len ht
      have hstop := he.stop
      exact usable_start _ _ (by omega)

end LibBson.Source
