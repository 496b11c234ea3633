import LibBson.Source.Compare

/-!
# `bson_compare` as an order

On a 64-bit `size_t` the documents are ordered by their octets behind the length. On a
32-bit one the difference of the lengths is never negative, so that a document whose
content is where that of another begins compares greater in either direction. No two
trees stand in that relation. Source: bson.c:2444-2477.
-/

set_option autoImplicit false

namespace LibBson.Guarantees
open LibBson.Library LibBson.Source LibBson.Spec

/-- `bson_compare` orders the documents of `S`. -/
structure TotalOrderOn (w : SizeT) (S : BsonRef → Prop) : Prop where
  opposite : ∀ a b, S a → S b → (bsonCompare w b a).sign = -(bsonCompare w a b).sign
  transitive : ∀ a b c, S a → S b → S c → bsonCompare w a b ≤ 0 → bsonCompare w b c ≤ 0 →
    bsonCompare w a c ≤ 0
  zero : ∀ a b, S a → S b → (bsonCompare w a b = 0 ↔ a.octets = b.octets)

/-- `(int64_t) (a - b)` has the sign of the difference. -/
theorem sub_sign {w : SizeT} {a b : Nat} (ha : a < 2147483648) (hb : b < 2147483648)
    (hw : w = .bits32 → b ≤ a) : (i64 (w.sub a b)).sign = ((a : Int) - b).sign := by
  have hdiff : i64 (w.sub a b) = (a : Int) - b := by
    cases w with
    | bits32 =>
      have hle := hw rfl
      unfold i64 SizeT.sub SizeT.modulus
      simp only
      split <;> omega
    | bits64 =>
      unfold i64 SizeT.sub SizeT.modulus
      simp only
      split <;> omega
  rw [hdiff]

/-- On 32 bits the shorter document is the greater one, as the longer is. -/
theorem sub_wraps {a b : Nat} (hab : a < b) (hb : b < 2147483648) :
    0 < i64 (SizeT.bits32.sub a b) := by
  unfold i64 SizeT.sub SizeT.modulus
  simp only
  split <;> omega

section Order

variable {w : SizeT} {a b : BsonRef} (ha : a.Accepted) (hb : b.Accepted)

include ha hb

theorem compare_zero : bsonCompare w a b = 0 ↔ a.octets = b.octets := by
  obtain ⟨hleasta, hmosta, -⟩ := ha.bounds
  obtain ⟨hleastb, hmostb, -⟩ := hb.bounds
  rw [ha.octets_iff hb, bsonCompare_eq w ha hb]
  constructor
  · intro h
    by_cases hlen : a.len = b.len
    · rw [if_pos hlen] at h
      have hsame : a.content.length = b.content.length := by
        rw [content_length, content_length, hlen]
      rcases memcmp_zero h with hpre | hpre
      · exact hpre.eq_of_length hsame
      · exact (hpre.eq_of_length hsame.symm).symm
    · rw [if_neg hlen, Int.sign_eq_zero_iff_zero] at h
      exfalso
      split at h
      · unfold i64 SizeT.sub SizeT.modulus at h
        cases w <;> simp only at h <;> split at h <;> omega
      · contradiction
  · intro h
    have hlen := congrArg List.length h
    rw [content_length, content_length] at hlen
    rw [if_pos (by omega), h, memcmp_self]

/-- Where no content begins another, or on 64 bits, the sign is that of the dictionary
order. -/
theorem compare_dictionary (hcut : w = .bits32 → ¬ a.Cut b) :
    bsonCompare w a b < 0 ↔ dictionary a.content < dictionary b.content := by
  obtain ⟨hleasta, hmosta, -⟩ := ha.bounds
  obtain ⟨hleastb, hmostb, -⟩ := hb.bounds
  have hswap : 0 < memcmp a.content b.content → memcmp b.content a.content < 0 := by
    intro h
    rw [memcmp_swap]
    omega
  rw [bsonCompare_eq w ha hb]
  rcases Int.lt_trichotomy (memcmp a.content b.content) 0 with hneg | hzero | hpos
  · have hlt := dictionary_of_memcmp hneg
    refine ⟨fun _ => hlt, fun _ => ?_⟩
    split
    · exact hneg
    · rw [if_neg (by omega), Int.sign_eq_neg_one_of_neg hneg]
      decide
  · by_cases hlen : a.len = b.len
    · have hsame : a.content.length = b.content.length := by
        rw [content_length, content_length, hlen]
      have heq : a.content = b.content := by
        rcases memcmp_zero hzero with hpre | hpre
        · exact hpre.eq_of_length hsame
        · exact (hpre.eq_of_length hsame.symm).symm
      rw [if_pos hlen, hzero, heq]
      exact ⟨fun h => absurd h (by decide), fun h => absurd h (lt_irrefl _)⟩
    · rw [if_neg hlen, if_pos hzero]
      have hla := content_length a
      have hlb := content_length b
      rcases Nat.lt_or_gt_of_ne hlen with hshort | hlong
      · have hpre : a.content <+: b.content := by
          rcases memcmp_zero hzero with hpre | hpre
          · exact hpre
          · have := hpre.length_le
            omega
        have hw : w = .bits64 := by
          cases w with
          | bits32 => exact absurd ⟨by omega, hpre⟩ (hcut rfl)
          | bits64 => rfl
        subst hw
        rw [sub_sign (w := .bits64) (by omega) (by omega) (fun h => (nomatch h)),
          Int.sign_eq_neg_one_of_neg (by omega)]
        exact ⟨fun _ => dictionary_lt_of_start hpre (by omega), fun _ => by decide⟩
      · have hpre : b.content <+: a.content := by
          rcases memcmp_zero hzero with hpre | hpre
          · have := hpre.length_le
            omega
          · exact hpre
        rw [sub_sign (by omega) (by omega) (fun _ => by omega), Int.sign_eq_one_of_pos (by omega)]
        exact ⟨fun h => absurd h (by decide),
          fun h => absurd (dictionary_lt_of_start hpre (by omega)) (lt_asymm h)⟩
  · have hlt := dictionary_of_memcmp (hswap hpos)
    refine ⟨fun h => ?_, fun h => absurd hlt (lt_asymm h)⟩
    split at h
    · omega
    · rw [if_neg (by omega), Int.sign_eq_one_of_pos hpos] at h
      exact absurd h (by decide)

/-- Two documents that are the same cannot be told apart by the dictionary order either. -/
theorem compare_pos (hcut : w = .bits32 → ¬ a.Cut b) :
    0 < bsonCompare w a b ↔ dictionary b.content < dictionary a.content := by
  have hneg := compare_dictionary ha hb hcut
  have hzero := compare_zero (w := w) ha hb
  rw [ha.octets_iff hb] at hzero
  rcases lt_trichotomy (dictionary a.content) (dictionary b.content) with hlt | heq | hgt
  · have := hneg.mpr hlt
    exact ⟨fun h => by omega, fun h => absurd hlt (lt_asymm h)⟩
  · have := hzero.mpr (dictionary_injective heq)
    exact ⟨fun h => by omega, fun h => absurd (heq ▸ h) (lt_irrefl _)⟩
  · refine ⟨fun _ => hgt, fun _ => ?_⟩
    have hnot : ¬ bsonCompare w a b < 0 := fun h => absurd (hneg.mp h) (lt_asymm hgt)
    have hne : bsonCompare w a b ≠ 0 := fun h => by
      rw [hzero.mp h] at hgt
      exact lt_irrefl _ hgt
    omega

end Order

theorem order_of_not_cut {w : SizeT} {S : BsonRef → Prop} (hS : ∀ b, S b → b.Accepted)
    (hcut : w = .bits32 → ∀ a b, S a → S b → ¬ a.Cut b) : TotalOrderOn w S where
  opposite := by
    intro a b ha hb
    have hneg := compare_dictionary (hS a ha) (hS b hb) fun hw => hcut hw a b ha hb
    have hpos := compare_pos (hS b hb) (hS a ha) fun hw => hcut hw b a hb ha
    have hneg' := compare_dictionary (hS b hb) (hS a ha) fun hw => hcut hw b a hb ha
    have hpos' := compare_pos (hS a ha) (hS b hb) fun hw => hcut hw a b ha hb
    rcases Int.lt_trichotomy (bsonCompare w a b) 0 with h | h | h
    · rw [Int.sign_eq_neg_one_of_neg h, Int.sign_eq_one_of_pos (hpos.mpr (hneg.mp h))]
      rfl
    · have hback : bsonCompare w b a = 0 := by
        rw [compare_zero (hS b hb) (hS a ha)]
        exact ((compare_zero (hS a ha) (hS b hb)).mp h).symm
      rw [h, hback]
      rfl
    · rw [Int.sign_eq_one_of_pos h, Int.sign_eq_neg_one_of_neg (hneg'.mpr (hpos'.mp h))]
  transitive := by
    intro a b c ha hb hc hab hbc
    have hle : ∀ x y, S x → S y →
        (bsonCompare w x y ≤ 0 ↔ dictionary x.content ≤ dictionary y.content) := by
      intro x y hx hy
      have hpos := compare_pos (hS x hx) (hS y hy) fun hw => hcut hw x y hx hy
      rw [← not_lt, ← not_lt, hpos]
    rw [hle a b ha hb] at hab
    rw [hle b c hb hc] at hbc
    rw [hle a c ha hc]
    exact le_trans hab hbc
  zero := fun a b ha hb => compare_zero (hS a ha) (hS b hb)

/-- Any set of documents is ordered if and only if `size_t` has 64 bits or no content in
it is where another begins. -/
theorem compare_order_iff (w : SizeT) (S : BsonRef → Prop) (hS : ∀ b, S b → b.Accepted) :
    TotalOrderOn w S ↔ (w = .bits32 → ∀ a b, S a → S b → ¬ a.Cut b) := by
  constructor
  · intro horder hw a b ha hb hcut
    subst hw
    obtain ⟨hleasta, -, -⟩ := (hS a ha).bounds
    obtain ⟨hleastb, hmostb, -⟩ := (hS b hb).bounds
    obtain ⟨hlt, hpre⟩ := hcut
    have hzero := memcmp_of_start hpre
    have hback : memcmp b.content a.content = 0 := by
      rw [memcmp_swap, hzero]
      rfl
    rw [content_length, content_length] at hlt
    have hopposite := horder.opposite a b ha hb
    rw [bsonCompare_eq _ (hS a ha) (hS b hb), bsonCompare_eq _ (hS b hb) (hS a ha),
      if_neg (show ¬ b.len = a.len by omega), if_neg (show ¬ a.len = b.len by omega),
      if_pos hzero, if_pos hback,
      Int.sign_eq_one_of_pos (sub_wraps hlt (by omega)),
      sub_sign (by omega) (by omega) (fun _ => by omega),
      Int.sign_eq_one_of_pos (show 0 < ((b.len - 4 : Nat) : Int) - (a.len - 4 : Nat) by omega)]
      at hopposite
    exact absurd hopposite (by decide)
  · exact order_of_not_cut hS

/-- All documents that encode a tree are ordered, on either width. -/
theorem compare_order_trees (w : SizeT) :
    TotalOrderOn w fun b => b.Accepted ∧ ∃ d, Encodes b d := by
  apply order_of_not_cut (fun b hb => hb.1)
  intro _ a b ha hb
  obtain ⟨d, hd⟩ := ha.2
  obtain ⟨e, he⟩ := hb.2
  obtain ⟨-, hmost, -⟩ := hb.1.bounds
  exact not_cut_of_encodes hd he (by omega)

def emptyDocument : BsonRef := { data := Mem.ofBytes [5, 0, 0, 0, 0], len := 5 }

/-- An empty document with one more NUL. -/
def paddedDocument : BsonRef := { data := Mem.ofBytes [6, 0, 0, 0, 0, 0], len := 6 }

theorem compare_order_padded :
    TotalOrderOn .bits64 fun b => b = emptyDocument ∨ b = paddedDocument :=
  (compare_order_iff .bits64 (fun b => b = emptyDocument ∨ b = paddedDocument)
    (by rintro b (rfl | rfl) <;> rfl)).mpr fun h => (nomatch h)

/-- On 32 bits each of the two documents is greater than the other. -/
theorem compare_not_order :
    (emptyDocument.Accepted ∧ paddedDocument.Accepted ∧
      bsonCompare .bits32 emptyDocument paddedDocument = 1 ∧
      bsonCompare .bits32 paddedDocument emptyDocument = 1) ∧
    ¬ ∀ S : BsonRef → Prop, (∀ b, S b → b.Accepted) → TotalOrderOn .bits32 S := by
  refine ⟨⟨rfl, rfl, by decide, by decide⟩, fun hall => ?_⟩
  have hopposite := (hall BsonRef.Accepted fun _ h => h).opposite emptyDocument paddedDocument rfl rfl
  exact absurd hopposite (by decide)

end LibBson.Guarantees
