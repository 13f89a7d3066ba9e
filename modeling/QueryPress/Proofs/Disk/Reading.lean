import QueryPress.Disk
import QueryPress.Proofs.Attempt

/-!
# Proofs/Disk/Reading — what can be seen of a file

Everything that is seen at a path is seen of the entry there: a text is the text of the file's bytes,
and a file has a time.
-/

namespace QueryPress.World

variable {w : World} {p : Path} {text : String}

theorem isFile_iff : w.isFile p = true ↔ ∃ bytes t, w.entry p = .ok (.file bytes t) := by
  unfold isFile
  constructor
  · intro h
    split at h
    · exact ⟨_, _, ‹_›⟩
    · cases h
  · rintro ⟨bytes, t, h⟩
    rw [h]

theorem entry_eq_ok {e : Disk.Entry} :
    w.entry p = .ok e ↔ ∃ at_, w.place p = .ok at_ ∧ w.disk.entry? at_ = some e := by
  refine bind_eq_ok.trans (exists_congr fun at_ => and_congr_right fun _ => ?_)
  cases w.disk.entry? at_ <;> simp

theorem modified_of_entry {bytes : ByteArray} {t : Instant}
    (h : w.entry p = .ok (.file bytes t)) : w.modified p = .ok t := by
  simp [modified, h, bind, Except.bind]

/-- **A text that can be read is the text of a file.** -/
theorem readText_eq_ok :
    w.readText p = .ok text ↔
      ∃ bytes t, w.entry p = .ok (.file bytes t) ∧ String.fromUTF8? bytes = some text := by
  constructor
  · intro h
    obtain ⟨bytes, hbytes, hdecode⟩ := bind_eq_ok.1 h
    obtain ⟨entry, he, hfile⟩ := bind_eq_ok.1 hbytes
    split at hfile
    · cases hfile
    · obtain rfl := Except.ok.inj hfile
      split at hdecode
      · exact ⟨_, _, he, Except.ok.inj hdecode ▸ ‹_›⟩
      · cases hdecode
  · rintro ⟨bytes, t, he, ht⟩
    simp [readText, readBytes, he, ht, bind, Except.bind]

/-- A text that was written into a file is the text of the file. -/
theorem fromUTF8?_toUTF8 (text : String) : String.fromUTF8? text.toUTF8 = some text := by
  simp only [String.fromUTF8?, String.toUTF8_eq_toByteArray, dif_pos text.isValidUTF8]
  rfl

theorem isFile_of_readText (h : w.readText p = .ok text) : w.isFile p = true := by
  obtain ⟨bytes, t, he, -⟩ := readText_eq_ok.1 h
  exact isFile_iff.2 ⟨bytes, t, he⟩

theorem modified_of_isFile (h : w.isFile p = true) : ∃ t, w.modified p = .ok t := by
  obtain ⟨bytes, t, he⟩ := isFile_iff.1 h
  exact ⟨t, modified_of_entry he⟩

/-- What can be read is one of the texts of the world. -/
theorem mem_texts_of_readText (h : w.readText p = .ok text) : text ∈ w.texts := by
  obtain ⟨bytes, t, he, ht⟩ := readText_eq_ok.1 h
  obtain ⟨at_, -, hentry⟩ := entry_eq_ok.1 he
  unfold Disk.entry? at hentry
  split at hentry
  · simp at hentry
  · obtain ⟨before, after, hentries, -⟩ := List.lookup_eq_some_iff.1 hentry
    have hmem : (at_, Disk.Entry.file bytes t) ∈ w.disk.entries := by simp [hentries]
    exact List.mem_filterMap.2 ⟨_, hmem, ht⟩

end QueryPress.World
