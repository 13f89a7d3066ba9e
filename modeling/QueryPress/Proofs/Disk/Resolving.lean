import QueryPress.Proofs.Disk.Leading
import QueryPress.Proofs.Text.Trimming

/-!
# Proofs/Disk/Resolving — what a path in the settings stands for

What a path is when it is seen from a directory (`SeenFrom`), and what a path stands for that may begin at
home (`StandsFor`), are said here of the texts alone; `join_eq_iff` and `resolve_eq_iff` say that joining and
resolving find just that.  So are the name of the file that a path leads to (`LeadsToFile`) and what that is
without its extension (`HasStem`).

Homes and file names go through the segments: texts without slashes that are joined by slashes are the
segments of what comes of it (`segments_intercalate`), and every path is its segments joined
(`intercalate_segments`).
-/

namespace QueryPress

namespace Path

variable {home : Option Path} {base p r : Path} {ss middle : List String}

/-! ## Seen from a directory -/

/-- **What a path is when it is seen from a directory** — a path that begins with a slash is itself; behind
any other stands the directory, with a slash between them, unless the directory ends with one or is empty. -/
inductive SeenFrom : Path → Path → Path → Prop
  | absolute (base rest : String) : SeenFrom base ("/" ++ rest) ("/" ++ rest)
  | below {base p : Path} : (∀ rest, p ≠ "/" ++ rest) → base ≠ "" → (∀ front, base ≠ front ++ "/") →
      SeenFrom base p (base ++ "/" ++ p)
  | behindSlash {p : Path} (front : String) : (∀ rest, p ≠ "/" ++ rest) →
      SeenFrom (front ++ "/") p (front ++ "/" ++ p)
  | nowhere {p : Path} : (∀ rest, p ≠ "/" ++ rest) → SeenFrom "" p p

theorem isAbsolute_iff : p.isAbsolute = true ↔ ∃ rest, p = "/" ++ rest := by
  rw [isAbsolute, beq_iff_eq, List.head?_eq_some_iff]
  constructor
  · rintro ⟨cs, hcs⟩
    exact ⟨String.ofList cs, String.toList_inj.1 (by simp [hcs])⟩
  · rintro ⟨rest, rfl⟩
    exact ⟨rest.toList, by simp⟩

theorem isAbsolute_eq_false_iff : p.isAbsolute = false ↔ ∀ rest, p ≠ "/" ++ rest := by
  rw [← Bool.not_eq_true, isAbsolute_iff, not_exists]

theorem endsWithSlash_iff : p.toList.getLast? = some '/' ↔ ∃ front, p = front ++ "/" := by
  rw [List.getLast?_eq_some_iff]
  constructor
  · rintro ⟨cs, hcs⟩
    exact ⟨String.ofList cs, String.toList_inj.1 (by simp [hcs])⟩
  · rintro ⟨front, rfl⟩
    exact ⟨front.toList, by simp⟩

/-- **Joining** is seeing the one path from the other. -/
theorem join_eq_iff : base.join p = r ↔ SeenFrom base p r := by
  constructor
  · rintro rfl
    by_cases habs : p.isAbsolute = true
    · rw [join_of_isAbsolute habs]
      obtain ⟨rest, rfl⟩ := isAbsolute_iff.1 habs
      exact .absolute base rest
    · have hrel := isAbsolute_eq_false_iff.1 (Bool.not_eq_true _ ▸ habs)
      rw [join, if_neg habs]
      by_cases hempty : base = ""
      · subst hempty
        simpa using SeenFrom.nowhere hrel
      · by_cases hslash : base.toList.getLast? = some '/'
        · rw [if_pos (by simp [hslash])]
          obtain ⟨front, rfl⟩ := endsWithSlash_iff.1 hslash
          exact .behindSlash front hrel
        · rw [if_neg (by simp [hempty, hslash])]
          exact .below hrel hempty (not_exists.1 (endsWithSlash_iff.not.1 hslash))
  · intro h
    cases h with
    | absolute _ rest => exact join_of_isAbsolute (isAbsolute_iff.2 ⟨rest, rfl⟩)
    | below hrel hempty hslash =>
      have hlast := endsWithSlash_iff.not.2 (not_exists.2 hslash)
      simp [join, isAbsolute_eq_false_iff.2 hrel, hempty, hlast]
    | behindSlash front hrel => simp [join, isAbsolute_eq_false_iff.2 hrel]
    | nowhere hrel => simp [join, isAbsolute_eq_false_iff.2 hrel]

/-! ## A path and its segments -/

theorem not_mem_of_mem_split : ∀ {cs s : List Char}, s ∈ split cs → '/' ∉ s
  | [], s, hs => by simp_all [split]
  | c :: cs, s, hs => by
    rw [split] at hs
    split at hs
    · rcases List.mem_cons.1 hs with rfl | hs
      · exact List.not_mem_nil
      · exact not_mem_of_mem_split hs
    · rename_i hc
      obtain ⟨t, ts, htail⟩ := List.exists_cons_of_ne_nil (split_ne_nil cs)
      rw [htail] at hs
      rcases List.mem_cons.1 hs with rfl | hs
      · have ht : '/' ∉ t := not_mem_of_mem_split (htail ▸ List.mem_cons_self)
        exact List.not_mem_cons_of_ne_of_not_mem (Ne.symm hc) ht
      · exact not_mem_of_mem_split (htail ▸ List.mem_cons_of_mem t hs)

theorem not_mem_of_mem_segments {s : String} (h : s ∈ p.segments) : '/' ∉ s.toList := by
  obtain ⟨cs, hcs, rfl⟩ := List.mem_map.1 h
  rw [String.toList_ofList]
  exact not_mem_of_mem_split hcs

/-- **Texts without slashes** are the segments of what they are when they are joined by slashes. -/
theorem segments_intercalate : ∀ {ss : List String}, ss ≠ [] → (∀ s ∈ ss, '/' ∉ s.toList) →
    segments ("/".intercalate ss) = ss
  | [], h, _ => absurd rfl h
  | [s], _, hs => by
    rw [String.intercalate_singleton]
    exact segments_of_not_mem (hs s List.mem_cons_self)
  | s :: t :: ss, _, hs => by
    obtain ⟨hs, hts⟩ := List.forall_mem_cons.1 hs
    rw [String.intercalate_cons_cons, segments_slash, segments_of_not_mem hs,
      segments_intercalate (List.cons_ne_nil t ss) hts]
    rfl

/-- **A path** is its segments joined by slashes. -/
theorem intercalate_segments (p : Path) : "/".intercalate p.segments = p := by
  have hsplit : ∀ cs : List Char, ['/'].intercalate (split cs) = cs := by
    intro cs
    induction cs with
    | nil => rfl
    | cons c cs ih =>
      obtain ⟨t, ts, htail⟩ := List.exists_cons_of_ne_nil (split_ne_nil cs)
      rw [split]
      split
      · rename_i hc
        rw [htail] at ih ⊢
        rw [List.intercalate_cons_cons, ih, hc]
        rfl
      · rw [htail] at ih ⊢
        cases ts with
        | nil => simpa using ih
        | cons u ts => simpa using ih
  apply String.toList_inj.1
  rw [String.toList_intercalate, segments, List.map_map]
  simpa using hsplit p.toList

/-! ## Beginning at home -/

/-- **What a path in the settings stands for** — behind a first segment `~` it is seen from the home
directory, if there is one, without the segments at its ends that are empty or a dot; any other path is seen
from the directory of the settings. -/
inductive StandsFor (home : Option Path) (base : Path) : Path → Path → Prop
  | atHome {h r : Path} {ss middle : List String} : home = some h → (∀ s ∈ ss, '/' ∉ s.toList) →
      IsStripped (fun s => s == "" || s == ".") ss middle → SeenFrom h ("/".intercalate middle) r →
      StandsFor home base ("/".intercalate ("~" :: ss)) r
  | elsewhere {p r : Path} : home = none ∨ (p ≠ "~" ∧ ∀ rest, p ≠ "~/" ++ rest) → SeenFrom base p r →
      StandsFor home base p r

/-- Segments lose those at their ends that stay where they are. -/
theorem dropOuterStays_intercalate (hss : ∀ s ∈ ss, '/' ∉ s.toList) (h : IsStripped isStay ss middle) :
    dropOuterStays ("/".intercalate ss) = "/".intercalate middle := by
  cases ss with
  | nil =>
    obtain rfl := dropEnds_eq_iff.2 h
    rfl
  | cons s ss => rw [dropOuterStays, segments_intercalate (List.cons_ne_nil s ss) hss, dropEnds_eq_iff.2 h]

theorem afterTilde?_intercalate (hss : ∀ s ∈ ss, '/' ∉ s.toList) (h : IsStripped isStay ss middle) :
    afterTilde? ("/".intercalate ("~" :: ss)) = some ("/".intercalate middle) := by
  have hall : ∀ s ∈ "~" :: ss, '/' ∉ s.toList := List.forall_mem_cons.2 ⟨by decide, hss⟩
  rw [afterTilde?, segments_intercalate (List.cons_ne_nil _ _) hall]
  exact congrArg some (dropOuterStays_intercalate hss h)

/-- A path begins with a segment `~` if it is one, or one with a slash behind it. -/
theorem segments_eq_cons_tilde_iff :
    (∃ ss, p.segments = "~" :: ss) ↔ p = "~" ∨ ∃ rest, p = "~/" ++ rest := by
  constructor
  · rintro ⟨ss, hss⟩
    have hp := intercalate_segments p
    rw [hss] at hp
    cases ss with
    | nil => exact .inl (hp.symm.trans String.intercalate_singleton)
    | cons s ss => exact .inr ⟨_, hp.symm.trans String.intercalate_cons_cons⟩
  · rintro (rfl | ⟨rest, rfl⟩)
    · exact ⟨[], segments_of_not_mem (by decide)⟩
    · exact ⟨segments rest, segments_slash "~" rest⟩

theorem resolve_elsewhere (h : home = none ∨ (p ≠ "~" ∧ ∀ rest, p ≠ "~/" ++ rest)) :
    resolve home base p = base.join p := by
  rcases h with rfl | h
  · cases htilde : p.afterTilde? <;> simp only [resolve, htilde]
  · have htilde : p.afterTilde? = none := by
      rw [afterTilde?]
      split
      · rename_i ss hss
        rcases segments_eq_cons_tilde_iff.1 ⟨ss, hss⟩ with hp | ⟨rest, hp⟩
        · exact absurd hp h.1
        · exact absurd hp (h.2 rest)
      · rfl
    simp only [resolve, htilde]

theorem resolve_atHome {h : Path} (hss : ∀ s ∈ ss, '/' ∉ s.toList) (hstripped : IsStripped isStay ss middle) :
    resolve (some h) base ("/".intercalate ("~" :: ss)) = h.join ("/".intercalate middle) := by
  simp only [resolve, afterTilde?_intercalate hss hstripped]

/-- **Resolving** finds what a path in the settings stands for. -/
theorem resolve_eq_iff : resolve home base p = r ↔ StandsFor home base p r := by
  constructor
  · rintro rfl
    by_cases helse : home = none ∨ (p ≠ "~" ∧ ∀ rest, p ≠ "~/" ++ rest)
    · exact .elsewhere helse (join_eq_iff.1 (resolve_elsewhere helse).symm)
    · obtain ⟨hhome, htilde⟩ := not_or.1 helse
      obtain ⟨h, rfl⟩ := Option.ne_none_iff_exists'.1 hhome
      have hbegins : p = "~" ∨ ∃ rest, p = "~/" ++ rest := by
        simpa only [not_and_or, not_not, ne_eq, not_forall] using htilde
      obtain ⟨ss, hss⟩ := segments_eq_cons_tilde_iff.2 hbegins
      have hslash : ∀ s ∈ ss, '/' ∉ s.toList := fun s hs =>
        not_mem_of_mem_segments (hss ▸ List.mem_cons_of_mem _ hs)
      have hstripped := isStripped_dropEnds isStay ss
      rw [← intercalate_segments p, hss]
      exact .atHome rfl hslash hstripped (join_eq_iff.1 (resolve_atHome hslash hstripped).symm)
  · intro h
    cases h with
    | atHome hhome hslash hstripped hseen =>
      rw [hhome, resolve_atHome hslash hstripped]
      exact join_eq_iff.2 hseen
    | elsewhere helse hseen => exact (resolve_elsewhere helse).trans (join_eq_iff.2 hseen)

/-! ## The name of a file -/

/-- **A path leads to a file of some name** — its last segment, but for those that are empty or a dot; `..` is
no name of a file. -/
def LeadsToFile (p : Path) (name : String) : Prop :=
  ∃ front back, p = "/".intercalate (front ++ name :: back) ∧ (∀ s ∈ front ++ name :: back, '/' ∉ s.toList) ∧
    (∀ s ∈ back, s = "" ∨ s = ".") ∧ name ≠ "" ∧ name ≠ "." ∧ name ≠ ".."

/-- **What a file name is without its extension** — what stands in front of its last dot, if anything does;
a name with no dot, or with none but the first of its characters, is as it is. -/
inductive HasStem : String → String → Prop
  | extended {stem extension : String} : stem ≠ "" → '.' ∉ extension.toList →
      HasStem (stem ++ "." ++ extension) stem
  | hidden {rest : String} : '.' ∉ rest.toList → HasStem ("." ++ rest) ("." ++ rest)
  | plain {name : String} : '.' ∉ name.toList → HasStem name name

theorem isStay_iff {s : String} : isStay s = true ↔ s = "" ∨ s = "." := by
  rw [isStay, Bool.or_eq_true, beq_iff_eq, beq_iff_eq]

theorem fileName?_eq_some_iff {name : String} : p.fileName? = some name ↔ p.LeadsToFile name := by
  have hlast : p.fileName? = some name ↔ p.segments.reverse.find? (! isStay ·) = some name ∧ name ≠ ".." := by
    rw [fileName?, steps, List.getLast?_filter]
    split
    · rename_i hup
      rw [hup, Option.some.injEq]
      exact iff_of_false (fun h => Option.some_ne_none _ h.symm) fun h => h.2 h.1.symm
    · rename_i hnot
      exact ⟨fun h => ⟨h, fun hup => hnot (hup ▸ h)⟩, And.left⟩
  rw [hlast, List.find?_eq_some_iff_append]
  constructor
  · rintro ⟨⟨hgoes, back, front, hsegments, hback⟩, hup⟩
    have hp : p.segments = front.reverse ++ name :: back.reverse := by
      rw [← List.reverse_reverse p.segments, hsegments]
      simp
    rw [Bool.not_eq_true', ← Bool.not_eq_true, isStay_iff, not_or] at hgoes
    refine ⟨_, _, hp ▸ (intercalate_segments p).symm, fun s hs => not_mem_of_mem_segments (hp ▸ hs),
      fun s hs => isStay_iff.1 ?_, hgoes.1, hgoes.2, hup⟩
    simpa using hback s (List.mem_reverse.1 hs)
  · rintro ⟨front, back, rfl, hslash, hback, hempty, hdot, hup⟩
    refine ⟨⟨by simp [isStay, hempty, hdot], back.reverse, front.reverse, ?_, fun s hs => ?_⟩, hup⟩
    · rw [segments_intercalate (by simp) hslash]
      simp
    · simpa using isStay_iff.2 (hback s (List.mem_reverse.1 hs))

theorem stemOf_of_not_mem {name : String} (h : '.' ∉ name.toList) : stemOf name = name := by
  have hall : name.toList.reverse.dropWhile (· != '.') = [] :=
    List.dropWhile_eq_nil_iff.2 fun c hc => by
      rw [bne_iff_ne]
      rintro rfl
      exact h (List.mem_reverse.1 hc)
  simp [stemOf, hall]

theorem stemOf_dot {stem extension : String} (h : '.' ∉ extension.toList) :
    stemOf (stem ++ "." ++ extension) = if stem = "" then "." ++ extension else stem := by
  have hkept : (stem ++ "." ++ extension).toList.reverse.dropWhile (· != '.')
      = '.' :: stem.toList.reverse := by
    have hskipped : ∀ c ∈ extension.toList.reverse, (c != '.') = true := fun c hc => by
      rw [bne_iff_ne]
      rintro rfl
      exact h (List.mem_reverse.1 hc)
    rw [String.toList_append, String.toList_append, List.reverse_append, List.reverse_append,
      List.dropWhile_append_of_pos hskipped]
    rfl
  simp only [stemOf, hkept, List.drop_succ_cons, List.drop_zero]
  by_cases hstem : stem = ""
  · simp [hstem]
  · simp [hstem]

theorem stemOf_eq_iff {name stem : String} : stemOf name = stem ↔ HasStem name stem := by
  constructor
  · rintro rfl
    by_cases hdot : '.' ∈ name.toList
    · obtain ⟨behind, front, hname, hbehind⟩ := List.eq_append_cons_of_mem (List.mem_reverse.2 hdot)
      have hsplit : name = String.ofList front.reverse ++ "." ++ String.ofList behind.reverse := by
        apply String.toList_inj.1
        rw [← List.reverse_reverse name.toList, hname]
        simp
      have hext : '.' ∉ (String.ofList behind.reverse).toList := by simpa using hbehind
      rw [hsplit, stemOf_dot hext]
      split
      · rename_i hfront
        rw [hfront]
        exact .hidden hext
      · exact .extended ‹_› hext
    · rw [stemOf_of_not_mem hdot]
      exact .plain hdot
  · intro h
    cases h with
    | extended hstem hext => rw [stemOf_dot hext, if_neg hstem]
    | hidden hrest => simpa using @stemOf_dot "" _ hrest
    | plain hdot => exact stemOf_of_not_mem hdot

theorem fileStem?_eq_some_iff {stem : String} :
    p.fileStem? = some stem ↔ ∃ name, p.LeadsToFile name ∧ HasStem name stem := by
  rw [fileStem?, Option.map_eq_some_iff]
  simp only [fileName?_eq_some_iff, stemOf_eq_iff]

end Path

end QueryPress
