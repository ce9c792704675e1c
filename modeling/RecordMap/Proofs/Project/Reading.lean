import RecordMap.Proofs.Schema.MemoSources
import RecordMap.Proofs.Text.Newlines

/-! What is read from a file. Whatever its bytes are, a file that can be opened is read as a text whose lines
end in line feeds, and schemas and models are taken from that text. -/

namespace RecordMap

namespace Project

variable {w : World} {path : Text}

/-- A file is read whatever its bytes are: as the text whose UTF-8 form they are or else one character for
each byte, with line feeds for all line breaks. It is not read, with a notice, if it cannot be opened. -/
structure ReadsTolerantly (w : World) (path : Text) : Prop where
  ofText : ∀ t : Text, w.disk.read path = .ok t.utf8Encode →
    w.openText path .utf8 = ⟨w, .ok (some t.withLineFeeds), []⟩
  ofOther : ∀ data, w.disk.read path = .ok data → (∀ t : Text, data ≠ t.utf8Encode) →
    ∃ t : Text, t.map Char.toNat = data.toList.map UInt8.toNat ∧
      w.openText path .utf8 = ⟨w, .ok (some t.withLineFeeds), []⟩
  no_return : ∀ t, (w.openText path .utf8).value = .ok (some t) → '\r' ∉ t
  ofFault : ∀ fault, w.disk.read path = .error fault →
    w.openText path .utf8 = ⟨w, .ok none, [.unreadableFile path fault]⟩
  fault_of_none : (w.openText path .utf8).value = .ok none → ∃ fault, w.disk.read path = .error fault

structure ReadsAs (w : World) (path t : Text) : Prop where
  text : w.openText path .utf8 = ⟨w, .ok (some t), []⟩
  schema : ∀ target, Schema.ofFile w path target = (Schema.tablesOf w t).map fun tables =>
    .ok ⟨tables, some path, w.settings.versionFor target⟩
  models : ∀ reader schema, readFile reader schema w path =
    if t = [] then ([], []) else readSource reader schema path t

theorem readsAs_of_read (hnull : Files.Path.hasNull path = false) {data : ByteArray} {t : Text}
    (hread : w.disk.read path = .ok data) (ht : Text.decode .utf8 data = t) : ReadsAs w path t := by
  have htext := World.openText_of_read hnull hread .utf8
  rw [ht] at htext
  refine ⟨htext, fun target => ?_, fun reader schema => ?_⟩
  · rw [Schema.ofFile, htext]
    rfl
  · have hvalue : (w.readText path .utf8) = ⟨w, some t, []⟩ := by
      rw [World.readText, Files.Disk.readText, hread, ← ht]
      rfl
    rw [readFile, hvalue]
    cases t <;> rfl

theorem readsTolerantly_of_not_null (hnull : Files.Path.hasNull path = false) :
    ReadsTolerantly w path := by
  refine ⟨fun t hread => ?_, fun data hread hother => ?_, fun t ht => ?_, fun fault hread =>
    World.openText_of_fault hnull hread .utf8, fun hnone => ?_⟩
  · rw [World.openText_of_read hnull hread, Text.decode_utf8Encode]
  · refine ⟨Text.decodeLatin1 data, Text.map_toNat_decodeLatin1 data, ?_⟩
    rw [World.openText_of_read hnull hread, Text.decode_of_not_utf8 hother]
  · cases hread : w.disk.read path with
    | ok data =>
      rw [World.openText_of_read hnull hread] at ht
      cases ht
      exact Text.not_mem_unifyNewlines _
    | error fault =>
      rw [World.openText_of_fault hnull hread] at ht
      cases ht
  · cases hread : w.disk.read path with
    | ok data =>
      rw [World.openText_of_read hnull hread] at hnone
      cases hnone
    | error fault => exact ⟨fault, rfl⟩

theorem not_null_of_readsTolerantly (h : ReadsTolerantly w path) :
    Files.Path.hasNull path = false := by
  cases hnull : Files.Path.hasNull path with
  | false => rfl
  | true =>
    have hopen := World.openText_of_null hnull w .utf8
    cases hread : w.disk.read path with
    | error fault =>
      rw [h.ofFault fault hread] at hopen
      cases hopen
    | ok data =>
      by_cases htext : ∃ t : Text, data = t.utf8Encode
      · obtain ⟨t, rfl⟩ := htext
        rw [h.ofText t hread] at hopen
        cases hopen
      · obtain ⟨t, _, ht⟩ := h.ofOther data hread (not_exists.mp htext)
        rw [ht] at hopen
        cases hopen

/-- Every file is read that can be opened, and read as the same text whichever line breaks it has. Only a
path with the null character is neither read nor noted. -/
theorem readsTolerantly_iff_not_null (w : World) (path : Text) :
    (ReadsTolerantly w path ∧
        (∀ t : Text, '\r' ∉ t → ∀ lineBreak ∈ Text.lineBreaks,
          w.disk.read path = .ok (t.withBreaks lineBreak).utf8Encode → ReadsAs w path t) ↔
      Files.Path.hasNull path = false) ∧
    (Files.Path.hasNull path = true →
      w.openText path .utf8 = ⟨w, .error (.interrupted .nullInPath), []⟩) := by
  refine ⟨⟨fun h => not_null_of_readsTolerantly h.1, fun hnull => ?_⟩, fun hnull =>
    World.openText_of_null hnull w .utf8⟩
  refine ⟨readsTolerantly_of_not_null hnull, fun t ht lineBreak hbreak hread => ?_⟩
  refine readsAs_of_read hnull hread ?_
  rw [Text.decode_utf8Encode, Text.withLineFeeds_eq_unifyNewlines, Text.unifyNewlines_withBreaks ht hbreak]

/-- Nothing stands at a path with the null character, but the attempt to read it is interrupted. -/
theorem not_readsTolerantly_null :
    (default : World).disk.read ['\x00'] = .error .notFound ∧ ¬ ReadsTolerantly default ['\x00'] := by
  refine ⟨rfl, fun h => ?_⟩
  cases not_null_of_readsTolerantly h

end Project

end RecordMap
