import Mathlib
import Telemetry.Agent.Reporter
import Telemetry.Proofs.Metric.WireText
import Telemetry.Proofs.Metric.Signature

/-
  How long the wire text of records is.

  The bytes of an object's text are its braces, a comma between members and, for each member,
  its quoted name, a colon and its value (`length_encode_objectText`); those of an array are its
  brackets, its commas and its items. A record's text therefore depends on its hash only
  through the length of the hash's escaped bytes (`length_encode_toJsonText_hash`). Every
  signature is 64 hex digits, one byte each (`length_rawOf_sign`), so the text of a signed
  record is as long as that of the same value with 64 zeros for its hash, whoever signs it
  (`length_encode_toRecord`), and a snapshot's text is as long as its records so written
  (`Snapshot.size_listToJsonText_records`): its size is known without computing a signature.
-/

namespace Telemetry

/-- Joining lists with a separator adds one separator between each two of them. -/
theorem length_intercalate {α : Type} (sep : List α) :
    ∀ L : List (List α),
      (sep.intercalate L).length = (L.map List.length).sum + sep.length * (L.length - 1)
  | [] => rfl
  | [x] => by simp
  | x :: y :: L => by
    rw [List.intercalate_cons_cons, List.length_append, List.length_append,
      length_intercalate sep (y :: L)]
    simp only [List.map_cons, List.sum_cons, List.length_cons, Nat.add_sub_cancel]
    ring

namespace Json

theorem size_toUTF8 (s : String) : s.toUTF8.size = (Utf8.encode s).length := by
  rw [Bytes.size_eq, Utf8.toUTF8_data]

theorem length_encode_quote (s : String) : (Utf8.encode (quote s)).length = (rawOf s).length + 2 := by
  rw [encode_quote, List.length_append, List.length_cons, List.length_singleton]

/-- The bytes of an object: two braces, a comma between members, and each member's quoted
name, colon and value. -/
theorem length_encode_objectText (ms : List (String × String)) :
    (Utf8.encode (objectText ms)).length =
      (ms.map fun m => (rawOf m.1).length + (Utf8.encode m.2).length + 3).sum +
        (ms.length - 1) + 2 := by
  have hpunct : (Utf8.encode "\x7b").length = 1 ∧ (Utf8.encode "\x7d").length = 1 ∧
      (Utf8.encode ",").length = 1 ∧ (Utf8.encode ":").length = 1 := by
    decide
  simp only [objectText, Utf8.encode_append, encode_intercalate, List.length_append,
    length_intercalate, List.map_map, List.length_map, Function.comp_def, length_encode_quote,
    hpunct]
  -- each member: its quoted name, a colon and its value
  have hmembers : (ms.map fun m => (rawOf m.1).length + 2 + 1 + (Utf8.encode m.2).length) =
      ms.map fun m => (rawOf m.1).length + (Utf8.encode m.2).length + 3 :=
    List.map_congr_left fun m _ => by omega
  rw [hmembers]
  omega

/-- The bytes of an array: two brackets, a comma between items, and the items. -/
theorem length_encode_arrayText (items : List String) :
    (Utf8.encode (arrayText items)).length =
      (items.map fun i => (Utf8.encode i).length).sum + (items.length - 1) + 2 := by
  have hbracket : (Utf8.encode "[").length = 1 ∧ (Utf8.encode "]").length = 1 ∧
      (Utf8.encode ",").length = 1 := by
    decide
  simp only [arrayText, Utf8.encode_append, encode_intercalate, List.length_append,
    length_intercalate, List.map_map, List.length_map, Function.comp_def, hbracket]
  omega

end Json

namespace Record

open Json

/-- A record's wire text is as long with any hash whose escaped bytes are as many and which is
empty exactly when the record's is. -/
theorem length_encode_toJsonText_hash (r : Record) {h : String}
    (hlen : (rawOf h).length = (rawOf r.hash).length) (he : h.isEmpty = r.hash.isEmpty) :
    (Utf8.encode { r with hash := h }.toJsonText).length = (Utf8.encode r.toJsonText).length := by
  simp only [toJsonText, length_encode_objectText, List.map_append, List.sum_append,
    List.length_append, he]
  -- only the hash member differs, by the length of its quoted value
  by_cases hh : r.hash.isEmpty = true
  · simp only [hh, if_true]
  · simp only [hh, Bool.false_eq_true, if_false, List.map_cons, List.map_nil, List.sum_cons,
      List.sum_nil, length_encode_quote, hlen, List.length_singleton]

/-- The wire text of a list of records is as long as that of any list whose records' texts are,
one by one, as long. -/
theorem length_encode_listToJsonText_congr {rs rs' : List Record}
    (h : rs.map (fun r => (Utf8.encode r.toJsonText).length) =
      rs'.map fun r => (Utf8.encode r.toJsonText).length) :
    (Utf8.encode (listToJsonText rs)).length = (Utf8.encode (listToJsonText rs')).length := by
  have hlen : rs.length = rs'.length := by
    simpa using congrArg List.length h
  simp only [listToJsonText, length_encode_arrayText, List.map_map, List.length_map,
    Function.comp_def, h, hlen]

end Record

/-- Hex text is two digits a byte, and each digit is written as one byte. -/
theorem length_rawOf_hex (bs : List UInt8) : (Json.rawOf (Hex.encode bs)).length = 2 * bs.length := by
  have hdigit : ∀ k < 16, (Json.escapeBytes (Hex.digitChar k)).length = 1 := by
    decide
  have hbyte : ∀ b : UInt8, ((Hex.byteChars b).flatMap Json.escapeBytes).length = 2 := by
    intro b
    have hb := UInt8.toNat_lt b
    simp only [Hex.byteChars, List.flatMap_cons, List.flatMap_nil, List.append_nil,
      List.length_append, hdigit _ (Nat.mod_lt _ (by decide)), hdigit (b.toNat / 16) (by omega)]
  simp only [Json.rawOf, Hex.encode, String.toList_ofList, List.flatMap_assoc, List.length_flatMap,
    hbyte, List.map_const', List.sum_replicate, smul_eq_mul, Nat.mul_comm]

/-- A signature is 64 hex digits, 64 bytes in a JSON string. -/
theorem length_rawOf_sign (signer : Signer) (message : String) :
    (Json.rawOf (signer.sign message)).length = 64 := by
  rw [Signer.sign, Signature.sign, length_rawOf_hex, Sha256.length_hmac]

/-- **A signed record's length does not depend on the signature.** The wire text of a signed
value is as long as that of the same value with 64 zeros for its hash. -/
theorem length_encode_toRecord (v : Value) (n : String) (signer : Signer) :
    (Utf8.encode (v.toRecord n signer).toJsonText).length =
      (Utf8.encode (v.toRecordWith n (Digits.zeros 64)).toJsonText).length := by
  have hrec : v.toRecord n signer =
      { v.toRecordWith n (Digits.zeros 64) with hash := signer.sign (v.canonicalMessage n) } := by
    cases v <;> rfl
  have hzeros : (Json.rawOf (Digits.zeros 64)).length = 64 ∧ (Digits.zeros 64).isEmpty = false := by
    decide
  have hhash : (v.toRecordWith n (Digits.zeros 64)).hash = Digits.zeros 64 := by
    cases v <;> rfl
  rw [hrec]
  apply Record.length_encode_toJsonText_hash
  · rw [hhash, length_rawOf_sign, hzeros.1]
  · rw [hhash, Signer.isEmpty_sign, hzeros.2]

/-- The wire text of a snapshot's records is as long, whoever signs them, as that of its values
with 64 zeros for every hash. -/
theorem Snapshot.size_listToJsonText_records (s : Snapshot) (signer : Signer) :
    (Record.listToJsonText (s.records signer)).toUTF8.size =
      (Record.listToJsonText (s.gauges.map (fun p => (Value.gauge p.2).toRecordWith p.1
        (Digits.zeros 64)) ++ [(Value.counter s.pollDelta).toRecordWith Snapshot.pollCount
          (Digits.zeros 64)])).toUTF8.size := by
  rw [Json.size_toUTF8, Json.size_toUTF8]
  apply Record.length_encode_listToJsonText_congr
  simp only [Snapshot.records, List.map_append, List.map_map, List.map_cons, List.map_nil,
    Function.comp_def, length_encode_toRecord]

end Telemetry
