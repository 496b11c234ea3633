import LibBson.Spec.Tree
import LibBson.Source.Reader

/-!
# What a stream of documents says

The octets a handle delivers up to the first read that gives none, and whether
that read is the end of the stream or an error. A stream is read truthfully when
the end is reported exactly where the documents returned are all of it.
-/

set_option autoImplicit false

namespace LibBson.Spec
open LibBson.Library LibBson.Source

/-- The octets handed over before the stream ends, in whatever pieces. -/
def delivered : List ReadResult → Bytes
  | .octets (b :: bs) :: rest => (b :: bs) ++ delivered rest
  | .octets [] :: _ => []
  | .error :: _ => []
  | [] => []

/-- Whether what ends the stream is an error. -/
def endsInError : List ReadResult → Bool
  | .octets (_ :: _) :: rest => endsInError rest
  | .octets [] :: _ => false
  | .error :: _ => true
  | [] => false

/-- The stream has ended without an error, and the documents are all of it. -/
def EndsAfter (handle : List ReadResult) (returned : List Bytes) : Prop :=
  returned.flatten = delivered handle ∧ endsInError handle = false

/-- The documents among what a caller has seen. -/
def returned (seen : List Seen) : List Bytes := seen.filterMap Seen.bson

@[simp] theorem returned_nil : returned [] = [] := rfl

theorem returned_cons (s : Seen) (seen : List Seen) :
    (returned (s :: seen)).flatten = s.bson.getD [] ++ (returned seen).flatten := by
  unfold returned
  rw [List.filterMap_cons]
  cases s.bson <;> simp

/-- A stream that arrives in the given pieces, none of them empty. -/
theorem delivered_octets {chunks : List Bytes} (h : ∀ c ∈ chunks, c ≠ []) :
    delivered (chunks.map .octets) = chunks.flatten ∧
      endsInError (chunks.map .octets) = false := by
  induction chunks with
  | nil => exact ⟨rfl, rfl⟩
  | cons c chunks ih =>
    obtain ⟨hd, he⟩ := ih fun c hc => h c (List.mem_cons_of_mem _ hc)
    cases c with
    | nil => exact absurd rfl (h [] (List.mem_cons_self ..))
    | cons b bs => exact ⟨by simp [delivered, hd], by simp [endsInError, he]⟩

end LibBson.Spec
