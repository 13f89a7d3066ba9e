import QueryPress.Proofs.Press.Removal

/-!
# Proofs/Press/Undoing — a compile in a file that fails undoes what it has done

A text that is to be compiled in a file is written to a new one first, and found there by the loaders, who
keep a copy under its name, before anything else can go wrong.  Whatever goes wrong then, the file is
deleted, which leaves the disk as it was (`delete_of_writeText`), and the loaders forget its name.  What
stays are the answers to the references that were followed: in every loader both tables are the same under
any name that was not asked for (`sameBut_of_asks`).
-/

namespace QueryPress

open Answers (Leads)

variable {w w' v : World} {c c' c₀ : Chain} {n m : String} {ns : List String}

/-! ## Loaders that were asked for some names -/

namespace Chain

/-- **Loaders differ under some names only** — they are the same loaders in the same order, and under every
other name each of them has the same in both its tables. -/
def SameBut (ns : List String) (c c' : Chain) : Prop :=
  ∀ n, n ∉ ns → List.Forall₂ (Loader.SameAt n) c' c

theorem SameBut.refl (ns : List String) (c : Chain) : SameBut ns c c := fun n _ =>
  List.forall₂_same.2 fun l _ => .refl n l

/-- A question changes nothing under another name. -/
theorem sameAt_find (hne : n ≠ m) (h : List.Forall₂ (Loader.SameAt n) c c₀) :
    List.Forall₂ (Loader.SameAt n) (find w m c).2 c₀ := by
  induction h with
  | nil => exact .nil
  | @cons l l₀ ls ls₀ hl hls ih =>
    have hasked := (Loader.sameAt_load (w := w) (l := l) hne).trans hl
    rcases snd_find_cons w m l ls with hf | hf <;> rw [hf]
    · exact .cons hasked hls
    · exact .cons hasked ih

/-- **Questions change nothing under names that were not asked for.** -/
theorem sameBut_of_asks (h : Asks w ns c c') : SameBut ns c c' := fun n hn =>
  h.keeps (P := (List.Forall₂ (Loader.SameAt n) · c))
    (fun _ hm _ hc => sameAt_find (ne_of_mem_of_not_mem hm hn).symm hc) (SameBut.refl ns c n hn)

theorem SameBut.evict (h : SameBut ns c c') (hm : m ∈ ns) : SameBut ns c (c'.evict m) := by
  intro n hn
  refine List.forall₂_map_left_iff.2 ((h n hn).imp fun l l₀ hl => ?_)
  exact (Loader.sameAt_evict (ne_of_mem_of_not_mem hm hn).symm).trans hl

/-- What loaders forget they have in neither of their tables. -/
theorem get?_of_mem_evict {l : Loader} (h : l ∈ c.evict n) :
    Table.get? l.copies n = none ∧ Table.get? l.checks n = none := by
  obtain ⟨l₀, -, rfl⟩ := List.mem_map.1 h
  simp

end Chain

namespace Compiler

variable {k k' : Compiler} {path : Path} {text : String}

/-! ## A file that was written and deleted -/

/-- The next file is a new one. -/
theorem isThere_nextPath (w : World) (k : Compiler) : w.isThere (k.nextPath w) = false :=
  w.isThere_freshPath _ isName_fileName fun _ _ => eq_of_fileName

/-- **To delete a file that has just come up** is to be back where one was. -/
theorem delete_of_writeText (htree : w.disk.IsTree) (hnew : w.isThere path = false)
    (h : w.writeText path text = .ok v) : delete v path = w := by
  obtain ⟨at_, hplace, hne, hdir, -, rfl⟩ := World.writeAt_eq_ok h
  have hnone : w.disk.entry? at_ = none := by
    rw [World.isThere_of_place hplace] at hnew
    simpa using hnew
  obtain ⟨-, q, hq, hfile⟩ := World.entry_of_writeAt h
  have hback := World.place_of_directories (fun _ => Disk.directory_of_put hne) hq
  obtain rfl := Except.ok.inj (hplace.symm.trans hback)
  have hremove : World.removeFile { w with disk := w.disk.put at_ (.file text.toUTF8 w.now) } path
      = .ok { w with disk := Disk.clear (w.disk.put at_ (.file text.toUTF8 w.now)) at_ } := by
    simp only [World.removeFile, hq, hfile, bind, Except.bind]
  rw [delete, hremove, htree.clear_put hne hnone]
  rfl

/-! ## A compile that fails -/

variable {name : Option String} {source body : String} {options : Table String} {e : Error}

/-- **What a compile in a file asks for** — with the text in a new file its loaders are asked for the name
of the file, and then for names in texts that the file leads to. -/
structure LooksUp (w : World) (k : Compiler) (body : String) (v : World) (asked : List String)
    (c : Chain) : Prop where
  written : ∃ serial, World.writeText { w with serial } (k.nextPath w) body = .ok v
  asks : Chain.Asks v (k.nextFile w :: asked) k.chain c
  led : ∀ n ∈ asked, ∃ root r, Chain.answer v k.chain (k.nextFile w) = .ok (some root) ∧
    Leads (Chain.answer v k.chain) root r ∧ n ∈ Chain.namesIn r.source

/-- **A compile in a file that fails is undone** — the world is as it was, but that a number has been used,
and the compiler but for its loaders.  The file could not be written; or the loaders have looked things up
and forgotten the file. -/
theorem undone_of_compileMaterialized (hc : k.chain.IsSound) (htree : w.disk.IsTree)
    (h : k.compileMaterialized w name body options = (.error e, k', w')) :
    (∃ serial, w' = { w with serial }) ∧
      ((k' = k ∧ e = .compile (name.getD namelessLabel) .temporaryFile) ∨
        ∃ v asked c, k.LooksUp w body v asked c ∧ k' = { k with chain := c.evict (k.nextFile w) }) := by
  obtain ⟨serial, hm | ⟨v, hwrite, ⟨e', c, hnamed, hm⟩ | ⟨bundle, c, -, hm⟩⟩⟩ :=
    k.compileMaterialized_ways w name body options <;> rw [hm] at h
  · cases h
    exact ⟨⟨serial, rfl⟩, .inl ⟨rfl, rfl⟩⟩
  · cases h
    refine ⟨⟨serial, delete_of_writeText htree (isThere_nextPath w k) hwrite⟩, .inr ?_⟩
    obtain ⟨asked, hasks, hled⟩ := asks_compileNamed hc v (name.getD namelessLabel) (k.nextFile w)
    rw [hnamed] at hasks
    exact ⟨v, asked, c, ⟨⟨serial, hwrite⟩, hasks, hled⟩, rfl⟩
  · cases h

end Compiler

/-- **A compile in a file that fails leaves no trace.**

Settings make a press, and a host does with its compiler and its loaders what it likes, while files change
as they like.  Then a text is compiled, in a file if its options name a strategy at all, and that fails.
The world is as it was, with the same disk, but that a number has been used, and so is the list of files of
the compiler.  Either the loaders were not asked, for the options name no strategy or the file cannot be
written; or they were asked for the name of the new file and for names in texts that it leads to.  Then none
of them has anything under the name of the file, and under every name that was not asked for each has what
it had. -/
theorem failed_compile_leaves_no_trace {s : Settings} {directory : Path} {p : Press} {w₀ : World}
    {u : Usage} {k' : Compiler} {name : Option String} {source : String} {options : Table String}
    {e : Error} (hpress : Press.ofSettings w₀ s directory = .ok p)
    (hrun : Usage.Run { compiler := p.compiler } u) (htree : w.disk.IsTree)
    (hfile : ∀ asked, Strategy.ofOptions options = .ok asked →
      asked.getD (Strategy.classify u.compiler.marker source).1 = .materialized)
    (h : u.compiler.compile w name source options = (.error e, k', w')) :
    w' = { w with serial := w'.serial } ∧ k'.tracked = u.compiler.tracked ∧
      ((k' = u.compiler ∧ ((∃ n, e = .compile Strategy.option (.unknownStrategy n)) ∨
          e = .compile (name.getD Compiler.namelessLabel) .temporaryFile)) ∨
        ∃ v asked c,
          u.compiler.LooksUp w (Strategy.classify u.compiler.marker source).2 v asked c ∧
          k' = { u.compiler with chain := c.evict (u.compiler.nextFile w) } ∧
          (∀ l ∈ k'.chain, Table.get? l.copies (u.compiler.nextFile w) = none ∧
            Table.get? l.checks (u.compiler.nextFile w) = none) ∧
          u.chain.SameBut (u.compiler.nextFile w :: asked) k'.chain) := by
  obtain ⟨n, hways⟩ | ⟨asked, hasked, ⟨hmemory, -⟩ | ⟨-, hways⟩⟩ :=
    Compiler.compile_ways w u.compiler name source options
  · rw [hways] at h
    cases h
    exact ⟨rfl, rfl, .inl ⟨rfl, .inl ⟨n, rfl⟩⟩⟩
  · rw [hfile asked hasked] at hmemory
    cases hmemory
  · rw [hways] at h
    obtain ⟨⟨serial, rfl⟩, ⟨rfl, he⟩ | ⟨v, asked, c, hlooks, rfl⟩⟩ :=
      Compiler.undone_of_compileMaterialized (hrun.isSound hpress) htree h
    · exact ⟨rfl, rfl, .inl ⟨rfl, .inr he⟩⟩
    · exact ⟨rfl, rfl, .inr ⟨v, asked, c, hlooks, rfl, fun l hl => Chain.get?_of_mem_evict hl,
        (Chain.sameBut_of_asks hlooks.asks).evict List.mem_cons_self⟩⟩

/-! ### A page that is not there -/

open Removal

/-- A text for a file, which includes the file that there is already and a page that is not there. -/
def danglingText : String := "cached\n\x7b% include 'tmpl-0.tera' %\x7d\x7b% include 'gone.tera' %\x7d"

/-- The other file stays, and is kept by its loader; of the new one there is nothing. -/
theorem failed_compile_leaves_no_trace_dangling :
    (referring danglingText).1 = .error (.notFound "gone.tera") ∧
      filedUsage.compiler.nextFile filed.2.2 = "tmpl-1.tera" ∧
      (∃ l ∈ (referring danglingText).2.1.chain, (Table.get? l.copies "tmpl-0.tera").isSome = true) ∧
      (referring danglingText).2.2.disk = filed.2.2.disk ∧
      (referring danglingText).2.1.tracked = filed.2.1.tracked ∧
      ∀ l ∈ (referring danglingText).2.1.chain, Table.get? l.copies "tmpl-1.tera" = none ∧
        Table.get? l.checks "tmpl-1.tera" = none := by
  obtain ⟨herror, hname, hkept, hmarker⟩ :
      failure? (referring danglingText).1 = some (.notFound "gone.tera") ∧
      filedUsage.compiler.nextFile filed.2.2 = "tmpl-1.tera" ∧
      (∃ l ∈ (referring danglingText).2.1.chain, (Table.get? l.copies "tmpl-0.tera").isSome = true) ∧
      (Strategy.classify filedUsage.compiler.marker danglingText).1 = .materialized := by
    decide +kernel
  have hfailed := eq_error_of_failure herror
  have hcompile : filedUsage.compiler.compile filed.2.2 none danglingText []
      = (.error (.notFound "gone.tera"), (referring danglingText).2) := by
    rw [compile_referring, ← hfailed]
  have hfile : ∀ asked, Strategy.ofOptions [] = .ok asked → asked.getD (Strategy.classify
      filedUsage.compiler.marker danglingText).1 = .materialized := by
    intro asked hasked
    obtain rfl := Except.ok.inj hasked
    exact hmarker
  obtain ⟨hworld, htracked, ⟨-, ⟨n, he⟩ | he⟩ | ⟨v, asked, c, -, -, hforgotten, -⟩⟩ :=
    failed_compile_leaves_no_trace ofSettings_filingPress run_filedUsage isTree_filed hfile
      hcompile
  · cases he
  · cases he
  · rw [hname] at hforgotten
    exact ⟨hfailed, hname, hkept, by rw [hworld], htracked, hforgotten⟩

end QueryPress
