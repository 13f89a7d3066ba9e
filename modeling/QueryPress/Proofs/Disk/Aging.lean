import QueryPress.Proofs.Disk.Writing

/-!
# Proofs/Disk/Aging — a world in which files only ever become later

`Ages` says of two worlds that the same paths lead to files, and that each file is the same or a later
one.  Time that passes and a file that is written over at a later time are the ways to get from one
world to such another.  Where no file changes at all (`Unchanged`), the same is found at every path, though
not when it was last changed: a directory changes all the time.
-/

namespace QueryPress.World

/-- **Files have become later** — the same paths lead to files, each the same file or a later one, and
whatever stood at a path still stands there. -/
structure Ages (w w' : World) : Prop where
  file : ∀ {p bytes t}, w.entry p = .ok (.file bytes t) → ∃ bytes' t',
    w'.entry p = .ok (.file bytes' t') ∧ (t < t' ∨ (t' = t ∧ bytes' = bytes))
  isFile : ∀ p, w'.isFile p = w.isFile p
  there : ∀ {p t}, w.modified p = .ok t → ∃ t', w'.modified p = .ok t'

variable {w w' : World} {p : Path} {bytes old : ByteArray} {t time : Instant}

theorem modified_eq_ok : (∃ t, w.modified p = .ok t) ↔ ∃ e, w.entry p = .ok e := by
  cases he : w.entry p with
  | error x => simp [modified, he, bind, Except.bind]
  | ok e => cases e <;> simp [modified, he, bind, Except.bind]

/-- Time passes. -/
theorem ages_tick (w : World) (now : Instant) : Ages w { w with now } where
  file h := ⟨_, _, h, .inr ⟨rfl, rfl⟩⟩
  isFile _ := rfl
  there h := by
    obtain ⟨e, he⟩ := modified_eq_ok.1 ⟨_, h⟩
    exact modified_eq_ok.2 ⟨e, he⟩

/-- **A file is written over** at a later time. -/
theorem ages_overwrite (hfile : w.entry p = .ok (.file old t))
    (h : w.writeAt p bytes time = .ok w') (hlater : t < time) : Ages w w' where
  file {q bytes' t'} hq := by
    obtain ⟨-, heq⟩ | ⟨-, hq', hnew⟩ := entry_overwrite hfile h q
    · exact ⟨_, _, heq.trans hq, .inr ⟨rfl, rfl⟩⟩
    · rw [hq] at hq'
      obtain ⟨rfl, rfl⟩ : bytes' = old ∧ t' = t := by simpa using hq'
      exact ⟨_, _, hnew, .inl hlater⟩
  isFile := isFile_overwrite hfile h
  there {q t'} hq := by
    refine modified_eq_ok.2 ?_
    obtain ⟨-, heq⟩ | ⟨-, -, hnew⟩ := entry_overwrite hfile h q
    · rw [heq]
      exact modified_eq_ok.1 ⟨_, hq⟩
    · exact ⟨_, hnew⟩

/-! ## No file changes -/

/-- **No file has changed** — the same stands at every path. -/
def Unchanged (w w' : World) : Prop := ∀ p, w'.entry p = w.entry p

theorem Unchanged.isFile (h : w.Unchanged w') : w'.isFile p = w.isFile p := by
  simp only [World.isFile, h p]

theorem Unchanged.readText (h : w.Unchanged w') : w'.readText p = w.readText p := by
  simp only [World.readText, World.readBytes, h p]

theorem Unchanged.modified (h : w.Unchanged w') (hfile : w.isFile p = true) :
    w'.modified p = w.modified p := by
  obtain ⟨bytes, t, he⟩ := isFile_iff.1 hfile
  rw [modified_of_entry he, modified_of_entry ((h p).trans he)]

end QueryPress.World
