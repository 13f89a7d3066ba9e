import QueryPress.Proofs.Disk.Changing
import QueryPress.Proofs.Press.Merging
import QueryPress.Proofs.Template.Questions

/-!
# Proofs/Press/Exits — what goes wrong when a press compiles, and when it renders

A compile ends at an unknown strategy, at a file that cannot be written, at a page that is missing, at a
text that is no page, or at a file that is no text (`Error.OfCompile`); a rendering ends where its merge
does.  All but one of these say of themselves to which of the two they belong: a file that is no text is
reported as it comes from the disk (`errors_tell_compiling`, `not_errorsTellCompiling`).

What a loader cannot read is the only thing that comes from the disk, and a compile asks one function of the
names for everything (`Chain.fst_follow`), so it is enough to look at one answer
(`Chain.error_of_answer`).  The file that a compile writes itself is a text.
-/

namespace QueryPress

variable {w w' : World} {c : Chain} {k : Compiler} {p : Press} {t : Template} {label n : String}
  {root : Resource} {settings : List LoaderSettings} {name : Option String} {options : Table String}
  {e : Error}

/-! ## Files that are no texts -/

namespace World

/-- **A file that a loader could come to is no text** — it stands below one of its directories, under a name
that does not lead out. -/
def Spoils (w : World) (settings : List LoaderSettings) : Prop :=
  ∃ s ∈ settings, ∃ directory ∈ s.paths, ∃ n : String, Path.isConfined n = true ∧
    ∃ bytes t, w.entry (directory.join n) = .ok (.file bytes t) ∧ String.fromUTF8? bytes = none

/-- A file cannot be read if it is no text. -/
theorem readText_eq_error {path : Path} {x : IoError} (hfile : w.isFile path = true)
    (h : w.readText path = .error x) : x = .invalidData ∧
      ∃ bytes t, w.entry path = .ok (.file bytes t) ∧ String.fromUTF8? bytes = none := by
  obtain ⟨bytes, t, hentry⟩ := isFile_iff.1 hfile
  simp only [readText, readBytes, hentry, bind, Except.bind] at h
  split at h
  · cases h
  · exact ⟨(Except.error.inj h).symm, bytes, t, hentry, ‹_›⟩

/-- **A text that is written spoils nothing.** -/
theorem Spoils.of_writeText {path : Path} {body : String} {serial : Nat}
    (hwrite : World.writeText { w with serial } path body = .ok w') (h : w'.Spoils settings) :
    w.Spoils settings := by
  obtain ⟨s, hs, directory, hin, n, hn, bytes, t, hentry, hbytes⟩ := h
  obtain ⟨at_, -, hne, -, -, rfl⟩ := writeAt_eq_ok hwrite
  refine ⟨s, hs, directory, hin, n, hn, bytes, t, ?_, hbytes⟩
  obtain ⟨place, hplace, he⟩ := entry_of_directories (fun _ => Disk.directory_of_put hne) hentry
  rw [Disk.lookup_put hne] at he
  split at he
  · obtain ⟨rfl, -⟩ : body.toUTF8 = bytes ∧ w.now = t := by simpa using he
    rw [fromUTF8?_toUTF8] at hbytes
    cases hbytes
  · exact entry_eq_ok.2 ⟨place, hplace, he⟩

end World

/-! ## What loaders fail with -/

/-- A loader fails at a file that is no text. -/
theorem Loader.error_of_load {l : Loader} {x : IoError} (h : (l.load w n).1 = .error x) :
    x = .invalidData ∧ w.Spoils [l.settings] := by
  rw [fst_load] at h
  split at h
  · cases h
  · rw [found] at h
    cases hlocate : l.locate? w n with
    | none => rw [hlocate] at h; cases h
    | some path =>
      rw [hlocate] at h
      rw [locate?] at hlocate
      split at hlocate
      · rename_i hn
        obtain ⟨directory, hin, rfl⟩ := List.mem_map.1 (List.mem_of_find?_eq_some hlocate)
        obtain hread | ⟨text, -, hrest⟩ := bind_eq_error.1 (map_eq_error.1 h)
        · obtain ⟨rfl, hbytes⟩ := World.readText_eq_error (List.find?_some hlocate) hread
          exact ⟨rfl, l.settings, List.mem_singleton.2 rfl, directory, hin, n, hn, hbytes⟩
        · cases hrest
      · cases hlocate

namespace Chain

/-- **A chain fails at a file that is no text.** -/
theorem error_of_answer (h : answer w c n = .error e) :
    e = .io .invalidData ∧ w.Spoils (c.map Loader.settings) := by
  induction c with
  | nil => simp [answer, find] at h
  | cons l ls ih =>
    rw [answer_cons] at h
    cases hload : (l.load w n).1 with
    | error x =>
      obtain ⟨rfl, s, hs, hspoilt⟩ := Loader.error_of_load hload
      rw [hload] at h
      exact ⟨(Except.error.inj h).symm, s, List.mem_cons.2 (.inl (List.mem_singleton.1 hs)), hspoilt⟩
    | ok found =>
      cases found with
      | some r => rw [hload] at h; cases h
      | none =>
        rw [hload] at h
        obtain ⟨he, s, hs, hspoilt⟩ := ih h
        exact ⟨he, s, List.mem_cons_of_mem _ hs, hspoilt⟩

/-- **A collection fails where an answer does**, or at a page that is missing. -/
theorem error_of_collectTo : ∀ {m : Nat} {known : List String} {waiting : List Resource} {c : Chain},
    (collectTo w m known waiting c).1 = .error e →
      (∃ n, answer w c n = .error e) ∨ ∃ missing, e = .notFound missing
  | 0, _, _, _, h => by cases h
  | _ + 1, _, [], _, h => by cases h
  | m + 1, known, r :: waiting, c, h => by
    obtain ⟨hfst, hkeep⟩ := fst_follow (w := w) (Reference.ofText r.source) known c
    rcases hf : follow w known (Reference.ofText r.source) c with ⟨(e' | found), c'⟩ <;>
      rw [hf] at hfst hkeep
    · rw [collectTo, hf] at h
      obtain rfl : e' = e := Except.error.inj h
      obtain ⟨ref, -, ⟨n, -, -, hn⟩ | ⟨-, he⟩⟩ := Answers.follow_error hfst.symm
      · exact .inl ⟨n, hn⟩
      · exact .inr ⟨_, he⟩
    · have hc' : answer w c' = answer w c := hkeep found rfl
      rw [collectTo_of_follow_ok hf] at h
      rw [← hc']
      exact error_of_collectTo (map_eq_error.1 h)

end Chain

/-! ## What a compile fails with -/

/-- **How a compile fails** — the options ask for no strategy there is, the file cannot be written, a page
is missing, a text is no page, or a file is no text. -/
inductive Error.OfCompile (w : World) (settings : List LoaderSettings) : Error → Prop
  | unknownStrategy (n : String) :
      OfCompile w settings (.compile Strategy.option (.unknownStrategy n))
  | temporaryFile (label : String) : OfCompile w settings (.compile label .temporaryFile)
  | missing (n : String) : OfCompile w settings (.notFound n)
  | malformed (label : String) : OfCompile w settings (.parse label)
  | unreadable : w.Spoils settings → OfCompile w settings (.io .invalidData)

/-- Every failure of a compile but one says that it is one. -/
theorem Error.OfCompile.isCompileTime (h : e.OfCompile w settings) :
    e.isCompileTime = true ∨ (e = .io .invalidData ∧ w.Spoils settings) := by
  cases h with
  | unreadable hspoilt => exact .inr ⟨rfl, hspoilt⟩
  | _ => exact .inl rfl

theorem Error.OfCompile.of_writeText {path : Path} {body : String} {serial : Nat}
    (hwrite : World.writeText { w with serial } path body = .ok w') (h : e.OfCompile w' settings) :
    e.OfCompile w settings := by
  cases h with
  | unknownStrategy n => exact .unknownStrategy n
  | temporaryFile label => exact .temporaryFile label
  | missing n => exact .missing n
  | malformed label => exact .malformed label
  | unreadable hspoilt => exact .unreadable (hspoilt.of_writeText hwrite)

/-- An answer that is a failure is one of a compile. -/
theorem Chain.ofCompile_of_answer (h : answer w c n = .error e) :
    e.OfCompile w (c.map Loader.settings) := by
  obtain ⟨rfl, hspoilt⟩ := error_of_answer h
  exact .unreadable hspoilt

theorem Bundle.error_of_ofRoot (h : (ofRoot w label root c).1 = .error e) :
    e.OfCompile w (c.map Loader.settings) := by
  rw [ofRoot] at h
  rcases hcollect : c.collect w root with ⟨(e' | members), c'⟩ <;> rw [hcollect] at h
  · obtain rfl : e' = e := Except.error.inj h
    obtain ⟨n, hn⟩ | ⟨missing, rfl⟩ := Chain.error_of_collectTo (congrArg Prod.fst hcollect)
    · exact Chain.ofCompile_of_answer hn
    · exact .missing missing
  · dsimp only at h
    split at h
    · obtain rfl := Except.error.inj h
      exact .malformed label
    · cases h

namespace Compiler

theorem error_of_compileNamed (h : (compileNamed w label n c).1 = .error e) :
    e.OfCompile w (c.map Loader.settings) := by
  rw [compileNamed, Chain.resolve] at h
  rcases hfind : c.find w n with ⟨(e' | _ | root), c'⟩ <;> rw [hfind] at h
  · obtain rfl : e' = e := Except.error.inj h
    exact Chain.ofCompile_of_answer (congrArg Prod.fst hfind)
  · obtain rfl := Except.error.inj h
    exact .missing n
  · have hset := Chain.settings_find w n c
    rw [hfind] at hset
    exact hset ▸ Bundle.error_of_ofRoot h

theorem error_of_compileEphemeral {body : String}
    (h : (k.compileEphemeral w name body options).1 = .error e) :
    e.OfCompile w (k.chain.map Loader.settings) := by
  simp only [compileEphemeral] at h
  exact Bundle.error_of_ofRoot (map_eq_error.1 h)

theorem error_of_compileMaterialized {body : String}
    (h : (k.compileMaterialized w name body options).1 = .error e) :
    e.OfCompile w (k.chain.map Loader.settings) := by
  obtain ⟨serial, hm | ⟨v, hwrite, ⟨e', c, hnamed, hm⟩ | ⟨bundle, c, -, hm⟩⟩⟩ :=
    k.compileMaterialized_ways w name body options <;> rw [hm] at h <;> cases h
  · exact .temporaryFile _
  · exact (error_of_compileNamed (congrArg Prod.fst hnamed)).of_writeText hwrite

/-- **Every failure of a compile** is one of those that a compile has. -/
theorem error_of_compile {source : String} (h : (k.compile w name source options).1 = .error e) :
    e.OfCompile w (k.chain.map Loader.settings) := by
  obtain ⟨n, hway⟩ | ⟨asked, -, ⟨-, hway⟩ | ⟨-, hway⟩⟩ := k.compile_ways w name source options <;>
    rw [hway] at h
  · obtain rfl := Except.error.inj h
    exact .unknownStrategy n
  · dsimp only at h
    exact error_of_compileEphemeral h
  · exact error_of_compileMaterialized h

theorem error_of_compileStored {stored : String}
    (h : (k.compileStored w stored options).1 = .error e) :
    e.OfCompile w (k.chain.map Loader.settings) :=
  error_of_compileNamed (map_eq_error.1 h)

end Compiler

/-! ## What a rendering fails with -/

namespace Press

variable {vars : Table Json}

/-- **A rendering fails where its merge does.** -/
theorem error_of_render (h : (p.render w t vars).1 = .error e) : ∃ label cause, e = .execution label cause := by
  rw [fst_render] at h
  obtain ⟨cause, -, rfl⟩ := mapError_eq_error.1 h
  exact ⟨_, cause, rfl⟩

theorem error_of_renderText (h : (p.renderText w t vars).1 = .error e) :
    ∃ label cause, e = .execution label cause := by
  obtain hrender | ⟨bytes, -, htext⟩ := bind_eq_error.1 h
  · exact error_of_render hrender
  · rw [textOf] at htext
    split at htext
    · cases htext
    · exact ⟨_, _, (Except.error.inj htext).symm⟩

end Press

/-! ## Errors that say where they belong -/

/-- **Errors tell compiling from rendering**, but for a file that is no text.

A press in any state compiles a text or a stored template, or renders a template, in any world.  An error of
a compile says that it belongs to compiling, or it says that the data of a file are invalid, and then a file
that a loader could come to is no text.  An error of a rendering never says that it belongs to compiling. -/
theorem errors_tell_compiling (p : Press) (w : World) :
    (∀ (name : Option String) (source : String) (options : Table String) (e : Error),
      (p.compiler.compile w name source options).1 = .error e → e.isCompileTime = true ∨
        (e = .io .invalidData ∧ w.Spoils (p.compiler.chain.map Loader.settings))) ∧
    (∀ (stored : String) (options : Table String) (e : Error),
      (p.compiler.compileStored w stored options).1 = .error e → e.isCompileTime = true ∨
        (e = .io .invalidData ∧ w.Spoils (p.compiler.chain.map Loader.settings))) ∧
    (∀ (t : Template) (vars : Table Json) (e : Error),
      (p.render w t vars).1 = .error e → e.isCompileTime = false) ∧
    ∀ (t : Template) (vars : Table Json) (e : Error),
      (p.renderText w t vars).1 = .error e → e.isCompileTime = false := by
  refine ⟨fun name source options e h => (Compiler.error_of_compile h).isCompileTime,
    fun stored options e h => (Compiler.error_of_compileStored h).isCompileTime,
    fun t vars e h => ?_, fun t vars e h => ?_⟩
  · obtain ⟨label, cause, rfl⟩ := Press.error_of_render h
    rfl
  · obtain ⟨label, cause, rfl⟩ := Press.error_of_renderText h
    rfl

/-! ### A page that is no text -/

namespace Exits

/-- A page of one byte that begins nothing in UTF-8. -/
def spoiltWorld : World where
  disk := { entries := [
    (["work"], .directory), (["pages"], .directory), (["pages", "bad.tera"], .file ⟨#[0xff]⟩ 1)] }

/-- A loader of the pages. -/
def pagesSettings : Settings where
  configDirectory := "/press"
  bufferPoolSize := 0
  loaders := [{ name := "pages", paths := ["/pages"] }]

/-- The press of these settings. -/
def pagesPress : Press :=
  (Press.ofSettings spoiltWorld pagesSettings "/work").toOption.get (by decide +kernel)

theorem compile_spoilt : (pagesPress.compiler.compile spoiltWorld none
    "\x7b% include 'bad.tera' %\x7d" []).1 = .error (.io .invalidData) :=
  eq_error_of_failure (by decide +kernel)

end Exits

open Exits

/-- A text that includes the page is not compiled, and the page is to blame for what is said. -/
theorem errors_tell_compiling_spoilt : Error.isCompileTime (.io .invalidData) = false ∧
    spoiltWorld.Spoils (pagesPress.compiler.chain.map Loader.settings) ∧
    (pagesPress.compiler.compileStored spoiltWorld "gone.tera" []).1 = .error (.notFound "gone.tera") := by
  obtain ⟨hcompile, -⟩ := errors_tell_compiling pagesPress spoiltWorld
  refine ⟨rfl, ?_, eq_error_of_failure (by decide +kernel)⟩
  rcases hcompile _ _ _ _ compile_spoilt with htime | ⟨-, hspoilt⟩
  · cases htime
  · exact hspoilt

/-- What one would say of every press: every error of a compile says that it belongs to compiling, and no
error of a rendering does. -/
def ErrorsTellCompiling : Prop :=
  ∀ (p : Press) (w : World),
    (∀ (name : Option String) (source : String) (options : Table String) (e : Error),
      (p.compiler.compile w name source options).1 = .error e → e.isCompileTime = true) ∧
    (∀ (stored : String) (options : Table String) (e : Error),
      (p.compiler.compileStored w stored options).1 = .error e → e.isCompileTime = true) ∧
    (∀ (t : Template) (vars : Table Json) (e : Error),
      (p.render w t vars).1 = .error e → e.isCompileTime = false) ∧
    ∀ (t : Template) (vars : Table Json) (e : Error),
      (p.renderText w t vars).1 = .error e → e.isCompileTime = false

/-- **A page that is no text fails a compile** with an error that does not say so. -/
theorem not_errorsTellCompiling : ¬ ErrorsTellCompiling := by
  intro htell
  have htime := (htell pagesPress spoiltWorld).1 _ _ _ _ compile_spoilt
  cases htime

end QueryPress
