import LibBson.Library.Ascii
import LibBson.Source.Md5Laws

/-!
# The digest does not depend on the pieces of a message

For every state, whatever stood in it, and every sequence of appends.
Source: bson-md5.c:184-397.
-/

set_option autoImplicit false

namespace LibBson.Guarantees
open LibBson.Library LibBson.Source

/-- An argument pair of `bson_md5_append`. -/
structure Md5Piece where
  data : Mem
  nbytes : UInt32

def Md5Piece.octets (p : Md5Piece) : Bytes := p.data.slice 0 p.nbytes.toNat

/-- `bson_md5_append`, once for each piece. -/
def md5Appends (pms : BsonMd5) : List Md5Piece → Option BsonMd5
  | [] => some pms
  | p :: pieces => (bsonMd5Append pms p.data p.nbytes).bind fun pms => md5Appends pms pieces

/-- `bson_md5_init`, the appends and `bson_md5_finish`. -/
def md5Run (pms : BsonMd5) (pieces : List Md5Piece) : Option Bytes :=
  (md5Appends (bsonMd5Init pms) pieces).bind bsonMd5Finish

/-- Each piece is no longer than an append takes behind the ones before it. -/
def piecesFit : Nat → List Md5Piece → Bool
  | _, [] => true
  | length, p :: pieces =>
    decide (p.nbytes.toNat ≤ md5MaxPiece length) && piecesFit (length + p.nbytes.toNat) pieces

theorem md5Appends_holds {pms : BsonMd5} {message : Bytes} (h : Md5Holds pms message)
    (pieces : List Md5Piece) (hfit : piecesFit message.length pieces = true) :
    ∃ pms', md5Appends pms pieces = some pms' ∧
      Md5Holds pms' (message ++ pieces.flatMap Md5Piece.octets) := by
  induction pieces generalizing pms message with
  | nil => exact ⟨pms, rfl, by rwa [List.flatMap_nil, List.append_nil]⟩
  | cons p pieces ih =>
    rw [piecesFit, Bool.and_eq_true, decide_eq_true_iff] at hfit
    obtain ⟨next, hnext, hholds⟩ := bsonMd5Append_holds h p.data _ hfit.1
    have hrest := hfit.2
    rw [← Mem.slice_length p.data 0 p.nbytes.toNat, ← List.length_append] at hrest
    obtain ⟨last, hlast, hall⟩ := ih hholds hrest
    refine ⟨last, ?_, ?_⟩
    · rw [md5Appends, hnext, Option.bind_some, hlast]
    · rwa [List.flatMap_cons, ← List.append_assoc]

theorem md5Appends_none {pms : BsonMd5} {message : Bytes} (h : Md5Holds pms message)
    (pieces : List Md5Piece) (hlong : piecesFit message.length pieces = false) :
    md5Appends pms pieces = none := by
  induction pieces generalizing pms message with
  | nil => cases hlong
  | cons p pieces ih =>
    rw [md5Appends]
    by_cases hfit : p.nbytes.toNat ≤ md5MaxPiece message.length
    · rw [piecesFit, decide_eq_true hfit, Bool.true_and] at hlong
      obtain ⟨next, hnext, hholds⟩ := bsonMd5Append_holds h p.data _ hfit
      rw [← Mem.slice_length p.data 0 p.nbytes.toNat, ← List.length_append] at hlong
      rw [hnext, Option.bind_some, ih hholds hlong]
    · rw [bsonMd5Append_none h p.data (by omega), Option.bind_none]

/-- The digest is the one of the octets in a row, in whatever pieces they come, as long as
every piece is shorter than 2^31 behind what completes the block in front of it. A longer piece
runs over the buffer. -/
theorem md5_run_iff (pms : BsonMd5) (pieces : List Md5Piece) :
    md5Run pms pieces =
      if piecesFit 0 pieces then some (Md5.digest (pieces.flatMap Md5Piece.octets)) else none := by
  have hinit := bsonMd5Init_holds pms
  rw [md5Run]
  cases hfit : piecesFit 0 pieces with
  | true =>
    obtain ⟨last, hlast, hholds⟩ := md5Appends_holds hinit pieces hfit
    rw [if_pos rfl, hlast, Option.bind_some, bsonMd5Finish_digest hholds, List.nil_append]
  | false => rw [if_neg Bool.false_ne_true, md5Appends_none hinit pieces hfit, Option.bind_none]

example : Md5.digest (ascii "abc") =
    [0x90, 0x01, 0x50, 0x98, 0x3c, 0xd2, 0x4f, 0xb0, 0xd6, 0x96, 0x3f, 0x7d, 0x28, 0xe1, 0x7f,
      0x72] := by decide +kernel

end LibBson.Guarantees
