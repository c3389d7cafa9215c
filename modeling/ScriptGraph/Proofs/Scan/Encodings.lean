import Mathlib.Data.List.Basic
import ScriptGraph.Proofs.Bytes.Utf16
import ScriptGraph.Proofs.Scan.Visits

/-!
# Scripts in different encodings

A script may be kept with the mark of its encoding or, in UTF-8, without a mark.  Its encoding is
told from its first bytes alone.  Text in UTF-8 never begins like a file in UTF-16, and it begins
with the mark of UTF-8 only if its first character is this mark.  So a script is read as the same
text from each of these files, and visiting them has the same outcome.
-/

namespace ScriptGraph

namespace Utf8

theorem next_mark (rest : List UInt8) :
    next 0xef (0xbb :: 0xbf :: rest) = (some '\uFEFF', rest) := rfl

theorem next_of_lead?_eq_none {first : UInt8} (hfirst : 0x80 ≤ first.toNat)
    (hlead : lead? first.toNat = none) (rest : List UInt8) : next first rest = (none, rest) := by
  simp [next, Nat.not_lt.mpr hfirst, hlead]

end Utf8

namespace Script

/-- The bytes that a text may be kept as.  A text that begins with a mark itself needs one before
it. -/
inductive KeptAs (text : List Char) : List UInt8 → Prop
  | marked (encoding : Encoding) : KeptAs text (encoding.mark ++ encoding.encode text)
  | plain (h : text.head? ≠ some '\uFEFF') : KeptAs text (Utf8.encode text)

theorem decode_encode (encoding : Encoding) (text : List Char) :
    encoding.decode (encoding.encode text) = text := by
  cases encoding with
  | utf8 => exact Utf8.decodeLossy_encode text
  | utf16 order => exact Utf16.decodeLossy_encode order text

theorem textOfBytes_marked (encoding : Encoding) (text : List Char) :
    textOfBytes (encoding.mark ++ encoding.encode text) = text := by
  have hmark : textOfBytes (encoding.mark ++ encoding.encode text) =
      encoding.decode (encoding.encode text) := by
    match encoding with
    | .utf8 | .utf16 .littleEndian | .utf16 .bigEndian => rfl
  rw [hmark, decode_encode]

theorem textOfBytes_plain {text : List Char} (h : text.head? ≠ some '\uFEFF') :
    textOfBytes (Utf8.encode text) = text := by
  have hplain : textOfBytes (Utf8.encode text) = Utf8.decodeLossy (Utf8.encode text) := by
    cases text with
    | nil => rfl
    | cons c text =>
        obtain ⟨first, rest, hencode, hnext⟩ := Utf8.exists_encode_cons c text
        rw [hencode]
        unfold textOfBytes
        split
        · rename_i rest' heq
          obtain ⟨rfl, rfl⟩ := List.cons.inj heq
          rw [Utf8.next_mark] at hnext
          exact (h (congrArg Prod.fst hnext).symm).elim
        · rename_i rest' heq
          obtain ⟨rfl, rfl⟩ := List.cons.inj heq
          rw [Utf8.next_of_lead?_eq_none (by decide) (by decide)] at hnext
          simp at hnext
        · rename_i rest' heq
          obtain ⟨rfl, rfl⟩ := List.cons.inj heq
          rw [Utf8.next_of_lead?_eq_none (by decide) (by decide)] at hnext
          simp at hnext
        · rfl
  rw [hplain, Utf8.decodeLossy_encode]

theorem KeptAs.textOfBytes_eq {text : List Char} {bytes : List UInt8} (h : KeptAs text bytes) :
    textOfBytes bytes = text := by
  cases h with
  | marked encoding => exact textOfBytes_marked encoding text
  | plain h => exact textOfBytes_plain h

end Script

open Script

def outcomeOfText (name : String) (text : List Char) : Except ScriptError FileOutcome :=
  ((parse (String.ofList text)).mapError .definition).map fun parsed => ⟨name, .ofParse parsed⟩

theorem outcomeOf_bytes (name : String) (bytes : List UInt8) :
    (outcomeOf name (.ok bytes)).1 = outcomeOfText name (textOfBytes bytes) := by
  unfold outcomeOfText
  cases hparse : parse (String.ofList (textOfBytes bytes)) with
  | error error => exact Sight.outcomeOf_error hparse
  | ok parsed => exact Sight.outcomeOf_ok hparse

theorem readScript_of_openFile {t : Tree} {file : ScriptFile} {place : Place} {state : FileState}
    (h : t.openFile file.way = .ok (place, state)) :
    (readScript t [] file).1 = .ok state.bytes := by
  simp [readScript, h, Except.mapError, Except.map]

/-- A text is read from its bytes in each encoding behind the mark of the encoding, and from its
bytes in UTF-8 without a mark unless it begins with one.  A script file that holds any of these
bytes has the outcome of the text. -/
theorem script_read_from_every_encoding (text : List Char) :
    textOfBytes ([0xef, 0xbb, 0xbf] ++ Utf8.encode text) = text ∧
    textOfBytes ([0xff, 0xfe] ++ Utf16.encode .littleEndian text) = text ∧
    textOfBytes ([0xfe, 0xff] ++ Utf16.encode .bigEndian text) = text ∧
    (text.head? ≠ some '\uFEFF' → textOfBytes (Utf8.encode text) = text) ∧
    ∀ (t : Tree) (file : ScriptFile) (place : Place) (state : FileState),
      t.openFile file.way = .ok (place, state) → KeptAs text state.bytes →
        (outcomeOf file.name (readScript t [] file).1).1 = outcomeOfText file.name text := by
  refine ⟨textOfBytes_marked .utf8 text, textOfBytes_marked (.utf16 .littleEndian) text,
    textOfBytes_marked (.utf16 .bigEndian) text, textOfBytes_plain, ?_⟩
  intro t file place state hopen hkept
  rw [readScript_of_openFile hopen, outcomeOf_bytes, hkept.textOfBytes_eq]

/-- A view whose name takes a pair of surrogates, in a file with the mark of big-endian UTF-16. -/
theorem script_read_from_every_encoding_view :
    let text := "CREATE VIEW [é𝄞] AS SELECT 1 FROM t".toList
    let view : DbObject := ⟨"[é𝄞]", .view, by decide⟩
    let bytes := [0xfe, 0xff] ++ Utf16.encode .bigEndian text
    let t : Tree := ⟨"/", [(["v.sql"], .file ⟨bytes, ⟨0⟩⟩)]⟩
    text.head? ≠ some '\uFEFF' ∧ textOfBytes (Utf8.encode text) = text ∧
    t.openFile ["v.sql"] = .ok (["v.sql"], ⟨bytes, ⟨0⟩⟩) ∧ KeptAs text bytes ∧
    (outcomeOf "v.sql" (readScript t [] ⟨["v.sql"], "/v.sql", "v.sql"⟩).1).1 =
      .ok ⟨"v.sql", .parsed ⟨view, [⟨view, "t", .table, by decide⟩]⟩⟩ := by
  intro text view bytes t
  obtain ⟨-, -, -, hplain, houtcome⟩ := script_read_from_every_encoding text
  have hhead : text.head? ≠ some '\uFEFF' := by decide
  have hopen : t.openFile ["v.sql"] = .ok (["v.sql"], ⟨bytes, ⟨0⟩⟩) := rfl
  have hkept : KeptAs text bytes := .marked (.utf16 .bigEndian)
  have hparse : parse (String.ofList text) =
      .ok (some ⟨view, [⟨view, "t", .table, by decide⟩]⟩) := by decide +kernel
  refine ⟨hhead, hplain hhead, hopen, hkept, ?_⟩
  rw [houtcome t ⟨["v.sql"], "/v.sql", "v.sql"⟩ _ _ hopen hkept, outcomeOfText, hparse]
  rfl

end ScriptGraph
