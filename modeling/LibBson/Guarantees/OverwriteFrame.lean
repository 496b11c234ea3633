import LibBson.Source.Overwrite

/-!
# The frame of an overwrite in place

For every buffer, every element that stepping and recursing reach in it and every call
that matches its type. The documents and arrays around the element are returned as the
same slices, in which the octets of the value are the new ones.
Source: bson-iter.c:146-177, 477-794, 2171-2310.
-/

set_option autoImplicit false

namespace LibBson.Guarantees
open LibBson.Library LibBson.Source LibBson.Spec

/-- The octets from `p` on are those that the call writes, all others what they were. -/
structure WrittenAt (m m' : Mem) (p : Nat) (w : Overwrite) : Prop where
  outside : ∀ i, i < p ∨ p + w.octets.length ≤ i → m' i = m i
  inside : Holds m' p w.octets

theorem WrittenAt.shift {m m' : Mem} {o p : Nat} {w : Overwrite} (h : WrittenAt m m' (o + p) w) :
    WrittenAt (m.shift o) (m'.shift o) p w where
  outside := fun i hi => h.outside (o + i) (by omega)
  inside := (holds_shift ..).mpr h.inside

/-- What iteration finds after the call. -/
structure Overwritten (w : Overwrite) (way : List Nat) (it it' : BsonIter) (base : Nat)
    (e : BsonIter) : Prop where
  target : ∃ e', elementAt way it' = some (base, e') ∧ Alike e e' ∧ w.Returned e'
  others : ∀ other,
    FoundAlike (other ≠ way) (¬ other <+: way) (elementAt other it) (elementAt other it')

theorem overwritten (w : Overwrite) (way : List Nat) {m m' : Mem} {it it' : BsonIter}
    (htwin : Twin m m' it it') {base : Nat} {e : BsonIter} (h : elementAt way it = some (base, e))
    (htype : iterType e = some w.type) (hw : WrittenAt m m' (base + e.d1) w) :
    Overwritten w way it it' base e := by
  induction way generalizing m m' it it' base e with
  | nil => cases h
  | cons i path ih =>
    obtain ⟨x, hx, hcases⟩ := elementAt_cons h
    obtain ⟨jt, o, t, hlen, hoff, hj⟩ := nth_element htwin hx
    have hjoff := hj.off
    have hkey := hj.keyEnd
    have hstop := hj.stop
    have hmax := htwin.max
    -- where the written octets are in the element behind the first index
    have hspot : o ≤ base + e.d1 ∧ base + e.d1 + w.octets.length ≤ x.nextOff ∧
        (t = .document ∨ t = .array → o + 4 ≤ base + e.d1) ∧
        Layout m' it.len o x.nextOff t := by
      rcases hcases with ⟨-, rfl, rfl⟩ | ⟨-, child, inner, hchild, hin, rfl⟩
      · have ht := hj.type_eq htype
        subst ht
        obtain ⟨hd, hend⟩ := w.extent hj
        have hinside := hw.inside
        rw [hd, Nat.zero_add] at hinside
        refine ⟨by omega, by omega, fun hn => w.not_nested hn |>.elim, ?_⟩
        rw [hend]
        exact w.layout hinside (by omega) hmax
      · obtain ⟨ht, rfl⟩ := recurse_child hj hchild
        have hn := hj.nested_len ht
        have hd : x.d1 = o := by
          have hf := hj.fields
          rcases ht with rfl | rfl <;> exact hf
        obtain ⟨h1, h2⟩ := elementAt_inside w path
          (twin_start (m.shift o) (m'.shift o) (a := m.le o 4) (by omega)) hin htype
        simp only [BsonIter.start] at h1 h2
        have hword : m'.le o 4 = m.le o 4 :=
          Mem.le_congr fun k hk => hw.outside (o + k) (by omega)
        refine ⟨by omega, by omega, fun _ => by omega, ?_⟩
        have hlay := hj.layout
        rw [hlen] at hlay
        rcases ht with rfl | rfl
        · rw [Layout, hword]
          exact hlay
        · rw [Layout, hword]
          exact hlay
    obtain ⟨hlo, hhi, hnested, hlay⟩ := hspot
    have hbefore : Agree m m' it.nextOff (base + e.d1) := fun k _ hk => hw.outside k (by omega)
    have hbehind : Agree m m' x.nextOff it.len := fun k hk _ => hw.outside k (by omega)
    obtain ⟨x', hx', hp⟩ := nth_target htwin hx ⟨jt, hj⟩
      (hbefore.mono (Nat.le_refl _) (by omega)) hlay
    have hkeyAgree : Agree m m' x.off o := hbefore.mono (by omega) hlo
    have hvalAgree : Agree m m' o (base + e.d1) := hbefore.mono (by omega) (Nat.le_refl _)
    constructor
    · rcases hcases with ⟨rfl, rfl, rfl⟩ | ⟨hpath, child, inner, hchild, hin, rfl⟩
      · obtain ⟨jt', hlen', hj'⟩ := hp.elem'
        have ht := hj.type_eq htype
        subst ht
        obtain ⟨hd, hend⟩ := w.extent hj
        have hinside := hw.inside
        rw [hd, Nat.zero_add] at hinside
        refine ⟨x', ?_, hp.alike hkeyAgree, w.returned hj' hinside (by omega) (by omega)⟩
        rw [elementAt, hx', Option.bind_some, if_pos rfl]
      · rcases hp.recurse hvalAgree hnested with ⟨hnone, -⟩ | ⟨ht, hd, hd', hn, h1, h2⟩
        · rw [hchild] at hnone
          cases hnone
        · rw [h1] at hchild
          cases hchild
          rw [hd, Nat.add_assoc] at hw
          obtain ⟨e', he', halike, hret⟩ := (ih (twin_start _ _ (by omega)) hin htype hw.shift).target
          refine ⟨e', ?_, halike, hret⟩
          rw [elementAt, hx', Option.bind_some, if_neg hpath, h2, Option.bind_some, he', hd, hd']
          rfl
    · intro other
      cases other with
      | nil => exact Or.inl ⟨rfl, rfl⟩
      | cons k rest =>
        rcases Nat.lt_trichotomy k i with hk | rfl | hk
        · -- an element in front, with all its octets in front of those written
          obtain ⟨y, y', p, u, h1, h2, hpy, hylo, hyhi, hcov⟩ :=
            nth_before htwin hx hk (hbefore.mono (Nat.le_refl _) (by omega))
          obtain ⟨yt, hylen, -, -, hy⟩ := hpy.elem
          have hystart := hy.layout.start_le
          have hyoff := hy.off
          have hykey := hy.keyEnd
          have hyend : Agree m m' y.off y.nextOff := hbefore.mono hylo (by omega)
          have hyval : Agree m m' p y.nextOff := hyend.mono (by omega) (Nat.le_refl _)
          apply foundAlike_cons h1 h2 hpy (hyend.mono (Nat.le_refl _) hystart) hyval hcov.word
          · exact fun _ _ => hpy.sameReturns hyend (fun _ => hcov.value) hcov.word
          · exact fun _ _ => hpy.octets hyend
          · intro _ _ hn
            apply elementAt_same rest (twin_start _ _ (by omega))
            exact Agree.shift (hyval.mono (Nat.le_add_right _ _) (Nat.le_of_eq hn.symm))
        · -- the element itself, or what is nested where it is
          apply foundAlike_cons hx hx' hp hkeyAgree hvalAgree hnested
          · intro hrest hne
            subst hrest
            -- an element that contains the one written to is a document or an array
            rcases hcases with ⟨rfl, -⟩ | ⟨-, child, inner, hchild, -⟩
            · exact absurd rfl hne
            · obtain ⟨ht, -⟩ := recurse_child hj hchild
              exact hp.sameReturns (hbefore.mono (by omega) (Nat.le_refl _)) (absurd ht) hnested
          · intro hrest hnot
            subst hrest
            exact absurd (List.prefix_iff_eq_append.mpr rfl) hnot
          · intro hrest ht hn
            rcases hcases with ⟨-, rfl, rfl⟩ | ⟨-, child, inner, hchild, hin, rfl⟩
            · have htw := hj.type_eq htype
              rw [htw] at ht
              exact w.not_nested ht |>.elim
            · obtain ⟨-, rfl⟩ := recurse_child hj hchild
              have hd : x.d1 = o := by
                have hf := hj.fields
                rcases ht with rfl | rfl <;> exact hf
              rw [hd, Nat.add_assoc] at hw
              have hrec := (ih (twin_start _ _ (by omega)) hin htype hw.shift).others rest
              exact hrec.imp (fun hne heq => hne (by rw [heq]))
                fun hnot hpre => hnot (List.cons_prefix_cons.mpr ⟨rfl, hpre⟩)
        · -- an element behind, in front of which nothing else has changed
          obtain ⟨j, rfl⟩ : ∃ j, k = i + 1 + j := ⟨k - (i + 1), by omega⟩
          have hxlen : x.len = it.len := by rw [hj.len, hlen]
          rw [elementAt, elementAt, nth_add hx, nth_add hx']
          exact elementAt_same (j :: rest) hp.twin (by rw [hxlen]; exact hbehind)

/-- A call changes octets of the element's value only. Iterating again finds every
element where it was, with its type and key; the accessors return the new value at the
element and what they did at every other, and all octets of those that do not contain
the element are the same. -/
theorem overwrite_frame (b : BsonRef) (hb : b.len ≤ bsonMaxSize) (it : BsonIter)
    (hinit : bsonIterInit b = (true, it)) (way : List Nat) (base : Nat) (e : BsonIter)
    (hat : elementAt way it = some (base, e)) (w : Overwrite) (htype : iterType e = some w.type) :
    (∀ i, w.run base e b.data i ≠ b.data i → base + e.d1 ≤ i ∧ i < base + e.nextOff) ∧
      e.off < e.d1 ∧
      ∃ it', bsonIterInit { b with data := w.run base e b.data } = (true, it') ∧
        Overwritten w way it it' base e := by
  unfold bsonMaxSize at hb
  have hrun := w.run_eq base b.data htype
  have hlen : ¬ b.len < 5 := by
    intro hlt
    rw [bsonIterInit, if_pos hlt] at hinit
    cases hinit
  have hit : it = BsonIter.start (some b.data) b.len := by
    rw [bsonIterInit, if_neg hlen] at hinit
    exact (Prod.mk.inj hinit).2.symm
  subst hit
  have htwin := twin_start b.data (w.run base e b.data) (a := b.len)
    (by unfold maxLen; omega)
  obtain ⟨hoff, hend⟩ := elementAt_extent w way htwin hat htype
  refine ⟨?_, hoff, _, by rw [bsonIterInit, if_neg hlen], overwritten w way htwin hat htype ?_⟩
  · intro i hne
    rw [hrun] at hne
    by_contra hout
    exact hne (Mem.write_frame _ _ _ _ (by omega))
  · rw [hrun]
    exact ⟨fun i hi => Mem.write_frame _ _ _ _ hi, Mem.holds_write_self _ _ _⟩

/-- `{"x": 1, "d": {"p": null, "n": 5, "q": true}, "y": false}` -/
def fiveAtDN : BsonRef where
  data := Mem.ofBytes [38, 0, 0, 0, 16, 120, 0, 1, 0, 0, 0, 3, 100, 0,
    19, 0, 0, 0, 10, 112, 0, 16, 110, 0, 5, 0, 0, 0, 8, 113, 0, 1, 0, 8, 121, 0, 0, 0]
  len := 38

theorem overwrite_frame_fiveAtDN :
    ∃ it' e, elementAt [1, 1] (BsonIter.start (some fiveAtDN.data) 38) = some (14, e) ∧
      bsonIterInit { fiveAtDN with data := Overwrite.run 14 e fiveAtDN.data (.int32 9) } =
        (true, it') ∧
      Overwritten (.int32 9) [1, 1] (BsonIter.start (some fiveAtDN.data) 38) it' 14 e := by
  have hat : elementAt [1, 1] (BsonIter.start (some fiveAtDN.data) 38) = some (14, _) := rfl
  obtain ⟨-, -, it', hinit, hover⟩ := overwrite_frame fiveAtDN (by decide) _ rfl [1, 1] 14 _ hat
    (.int32 9) (by decide +kernel)
  exact ⟨it', _, hat, hinit, hover⟩

end LibBson.Guarantees
