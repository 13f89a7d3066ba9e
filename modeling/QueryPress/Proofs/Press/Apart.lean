import QueryPress.Proofs.Press.Merging
import QueryPress.Proofs.Template.Stability

/-!
# Proofs/Press/Apart — a rendering takes nothing over from those before it

Renderings share the buffers of a press, its loaders and its property sources.  Nothing of an earlier one
comes through in a later one (`renders_stand_alone`): what a rendering comes to depends on the pages of the
template when it has been refreshed, on what the property sources have, on the variables, and on what the
functions that it calls find outside.  The clock goes on while a template is rendered, and so a source that
comes due meanwhile may read its file: what the sources have had when the rendering began does not settle
what comes of it then (`not_meetingSuffices`).

Two inputs.

**The pool is tidy** (`Press.IsTidy.run`).  Every idle buffer is empty, because a buffer is emptied when it
is given back, and it is given back by a merge that fails as by any other; a buffer that has grown too
large is not kept at all.

**A merge sees only contents** (`Press.mergeBundle_alike`).  The sources of two presses may be in different
states, and belong to different worlds; if they have the same contents when they have been looked at, and
keep them, the merges come to the same.
-/

namespace QueryPress

variable {w w' w₀ w₀' : World} {p p' p₀ p₀' : Press} {t t' : Template}

/-! ## What is done with a press -/

/-- **One step of a press**, in whatever world — a template is rendered, whether that fails or not;
anything is done with the compiler, such as compiling, removing templates and asking the loaders;
the property sources look at their files; the idle buffers are let go, or new ones added. -/
inductive Press.Step : Press → Press → Prop
  | render {p : Press} (w : World) (t : Template) (vars : Table Json) : Step p (p.render w t vars).2.2
  | compiler {p : Press} (k : Compiler) : Step p { p with compiler := k }
  | sources {p : Press} {registry : Properties.Registry} :
      Table.keys registry = Table.keys p.registry → Step p { p with registry }
  | clear {p : Press} : Step p { p with buffers := p.buffers.clear }
  | warm {p : Press} (n : Nat) : Step p { p with buffers := p.buffers.warm n }

/-- One step after the other. -/
inductive Press.Run : Press → Press → Prop
  | start {p : Press} : Run p p
  | step {p p' p'' : Press} : Run p p' → Step p' p'' → Run p p''

/-! ## What every step keeps -/

/-- **A press is tidy** — its idle buffers are empty, and its property sources are in order. -/
structure Press.IsTidy (p : Press) : Prop where
  clean : p.buffers.IsClean
  ordered : Table.InOrder p.registry

namespace Properties.Registry

theorem inOrder_addNew {registry : Registry} (h : Table.InOrder registry) (s : Source) :
    Table.InOrder (registry.addNew s) := by
  rw [addNew]
  split
  · exact h
  · exact h.insert s.name s

theorem inOrder_foldl_addNew : ∀ (sources : List Source) {registry : Registry},
    Table.InOrder registry → Table.InOrder (sources.foldl addNew registry)
  | [], _, h => h
  | s :: sources, _, h => inOrder_foldl_addNew sources (inOrder_addNew h s)

theorem inOrder_ofDeclarations (w : World) (base : Path) (interval : Nat) (ds : List Declaration) :
    Table.InOrder (ofDeclarations w base interval ds) :=
  inOrder_foldl_addNew _ List.Pairwise.nil

end Properties.Registry

namespace Press

/-- **Every press that settings ask for is tidy.** -/
theorem isTidy_of_ofSettings {s : Settings} {directory : Path} (h : ofSettings w s directory = .ok p) :
    p.IsTidy := by
  simp only [ofSettings] at h
  split at h
  · cases h
  · obtain rfl := Except.ok.inj h
    exact ⟨(BufferPool.isClean_of_idle_eq_nil rfl).warm _,
      Properties.Registry.inOrder_ofDeclarations w _ _ _⟩

/-- **A rendering leaves a press tidy**, whatever it comes to. -/
theorem IsTidy.render (h : p.IsTidy) (w : World) (t : Template) (vars : Table Json) :
    (p.render w t vars).2.2.IsTidy where
  clean := isClean_mergeBundle h.clean w _ vars p.registry
  ordered := inOrder_mergeBundle w _ vars h.ordered p.buffers

theorem IsTidy.step (h : p.IsTidy) (hstep : Step p p') : p'.IsTidy := by
  cases hstep with
  | render w t vars => exact h.render w t vars
  | compiler k => exact ⟨h.clean, h.ordered⟩
  | sources hkeys =>
    refine ⟨h.clean, ?_⟩
    rw [Table.InOrder, hkeys]
    exact h.ordered
  | clear => exact ⟨BufferPool.isClean_of_idle_eq_nil rfl, h.ordered⟩
  | warm n => exact ⟨h.clean.warm n, h.ordered⟩

/-- **A press stays tidy.** -/
theorem IsTidy.run (h : p.IsTidy) (hrun : Run p p') : p'.IsTidy := by
  induction hrun with
  | start => exact h
  | step _ hstep ih => exact ih.step hstep

/-- **Two renderings meet the same** — the same book with the same entry, when the templates have been
refreshed, and the same property contents, when the sources have been looked at. -/
structure MeetTheSame (w w' : World) (p p' : Press) (t t' : Template) : Prop where
  entry : (p'.compiler.refresh w' t').1.bundle.entry = (p.compiler.refresh w t).1.bundle.entry
  book : (p'.compiler.refresh w' t').1.bundle.book = (p.compiler.refresh w t).1.bundle.book
  contents : (p'.registry.fresh w').contents = (p.registry.fresh w).contents

/-- **Two renderings see the same** — they meet the same, the sources that come due while they last are up
to date, and the functions that the book calls say the same in both. -/
structure SeeTheSame (w w' : World) (p p' : Press) (t t' : Template) : Prop
    extends MeetTheSame w w' p p' t t' where
  steady : (p.registry.fresh w).IsSteady w
  steady' : (p'.registry.fresh w').IsSteady w'
  outside : ∀ f : Standard, f.name ∈ (p.compiler.refresh w t).1.bundle.book.calls → f.SaysTheSame w w'

/-- **Tidy presses that see the same** come to the same. -/
theorem IsTidy.render_alike (h : p.IsTidy) (h' : p'.IsTidy) (hsame : SeeTheSame w w' p p' t t')
    (vars : Table Json) : SameOutcome (p.render w t vars).1 (p'.render w' t' vars).1 := by
  have hmerge : (mergeBundle w' (t'.bundle.refresh w' p'.compiler.chain).1 vars p'.registry p'.buffers).1
      = (mergeBundle w (t.bundle.refresh w p.compiler.chain).1 vars p.registry p.buffers).1 :=
    mergeBundle_alike hsame.entry hsame.book vars h.ordered hsame.contents hsame.steady hsame.steady'
      hsame.outside h.clean h'.clean
  rw [p.fst_render, p'.fst_render, hmerge]
  exact .of_merge _ _ _

/-- **A tidy press might as well take a new buffer.** -/
theorem IsTidy.render_anew (h : p.IsTidy) (w : World) (t : Template) (vars : Table Json)
    {pool : BufferPool} (hnew : pool.idle = []) : (p.render w t vars).1 =
      (mergeBundle w (p.compiler.refresh w t).1.bundle vars p.registry pool).1.mapError
        (.execution (p.compiler.refresh w t).1.label) := by
  have hmerge : (mergeBundle w (p.compiler.refresh w t).1.bundle vars p.registry pool).1
      = (mergeBundle w (p.compiler.refresh w t).1.bundle vars p.registry p.buffers).1 :=
    mergeBundle_anew w _ vars p.registry h.clean (BufferPool.isClean_of_idle_eq_nil hnew)
  rw [hmerge]
  exact p.fst_render w t vars

end Press

/-- **Renderings do not leak into one another.**

Take two presses that settings ask for, and do with each what you like.  If a rendering by one and a
rendering by the other see the same, and have the same variables, they come to the same: to the same
bytes, or to the same reason why there are none.  And what each comes to, whatever they see, is what it
would come to with a new buffer. -/
theorem renders_stand_alone {s s' : Settings} {directory directory' : Path}
    (hstart : Press.ofSettings w₀ s directory = .ok p₀) (hrun : Press.Run p₀ p)
    (hstart' : Press.ofSettings w₀' s' directory' = .ok p₀') (hrun' : Press.Run p₀' p')
    (vars : Table Json) :
    (Press.SeeTheSame w w' p p' t t' → SameOutcome (p.render w t vars).1 (p'.render w' t' vars).1) ∧
      ∀ pool : BufferPool, pool.idle = [] → (p.render w t vars).1 =
        (Press.mergeBundle w (p.compiler.refresh w t).1.bundle vars p.registry pool).1.mapError
          (.execution (p.compiler.refresh w t).1.label) := by
  have htidy := (Press.isTidy_of_ofSettings hstart).run hrun
  have htidy' := (Press.isTidy_of_ofSettings hstart').run hrun'
  exact ⟨fun hsame => htidy.render_alike htidy' hsame vars, fun _ hnew => htidy.render_anew w t vars hnew⟩

/-! ## After a failure and a long output -/

/-- A template of which nothing has changed is left as it is. -/
theorem Compiler.refresh_of_nothing {k : Compiler}
    (h : (k.chain.collectChanges w t.bundle.resources).1 = .ok []) : (k.refresh w t).1 = t :=
  congrArg (fun bundle => { t with bundle }) (Bundle.refresh_of_nothing h)

/-- A properties file. -/
def sizeWorld : World where
  disk := { entries := [
    (["work"], .directory), (["press"], .directory),
    (["press", "cfg.properties"], .file "size=5".toUTF8 1)] }

/-- One buffer with room for eight bytes, which is not kept when it has outgrown sixteen. -/
def sizeSettings : Settings where
  configDirectory := "/press"
  bufferPoolSize := 1
  bufferCapacity := 8
  maxRetainedBuffer := 16
  properties := [{ path := "cfg.properties" }]

theorem isSome_sizePress : (Press.ofSettings sizeWorld sizeSettings "/work").toOption.isSome = true := by
  decide +kernel

/-- The press of these settings. -/
def sizePress : Press :=
  (Press.ofSettings sizeWorld sizeSettings "/work").toOption.get isSome_sizePress

/-- What compiling a text comes to, where the press can make a template. -/
def sizeTemplate? (text : String) : Option Template :=
  (sizePress.compiler.compile sizeWorld none text []).1.toOption

theorem isSome_longTemplate : (sizeTemplate? "more than sixteen bytes").isSome = true := by
  decide +kernel

/-- A template whose output outgrows the buffers that are kept. -/
def longTemplate : Template := (sizeTemplate? "more than sixteen bytes").get isSome_longTemplate

theorem isSome_brokenTemplate : (sizeTemplate? "Size \x7b\x7b missing \x7d\x7d").isSome = true := by
  decide +kernel

/-- A template that fails when its first word has been written. -/
def brokenTemplate : Template :=
  (sizeTemplate? "Size \x7b\x7b missing \x7d\x7d").get isSome_brokenTemplate

theorem isSome_sizeTemplate : (sizeTemplate? "\x7b\x7b cfg.size \x7d\x7d bytes").isSome = true := by
  decide +kernel

/-- A template with a property. -/
def sizeTemplate : Template :=
  (sizeTemplate? "\x7b\x7b cfg.size \x7d\x7d bytes").get isSome_sizeTemplate

/-- The press after a long output. -/
def longPress : Press := (sizePress.render sizeWorld longTemplate []).2.2

/-- The press after another rendering, which has failed. -/
def usedPress : Press := (longPress.render sizeWorld brokenTemplate []).2.2

theorem run_usedPress : Press.Run sizePress usedPress := by
  unfold usedPress longPress
  exact .step (.step .start (.render _ _ _)) (.render _ _ _)

theorem seeTheSame_sizeTemplate :
    Press.SeeTheSame sizeWorld sizeWorld sizePress usedPress sizeTemplate sizeTemplate := by
  have hsame : (usedPress.compiler.refresh sizeWorld sizeTemplate).1
      = (sizePress.compiler.refresh sizeWorld sizeTemplate).1 := by
    rw [Compiler.refresh_of_nothing (eq_ok_of_toOption (by decide +kernel)),
      Compiler.refresh_of_nothing (eq_ok_of_toOption (by decide +kernel))]
  refine ⟨⟨by rw [hsame], by rw [hsame], by decide +kernel⟩, ?_, ?_, fun _ _ _ _ => rfl⟩
  · exact Properties.Registry.isSteady_of_isCurrent (by decide +kernel)
  · exact Properties.Registry.isSteady_of_isCurrent (by decide +kernel)

/-- The long output has cost the press its buffer, the rendering that failed has given it another one, and
a third rendering comes to what it comes to on the new press. -/
theorem renders_stand_alone_after_failure :
    sizePress.buffers.size = 1 ∧ longPress.buffers.size = 0 ∧ usedPress.buffers.size = 1 ∧
      (longPress.render sizeWorld brokenTemplate []).1.toOption.isSome = false ∧
      (usedPress.render sizeWorld sizeTemplate []).1.toOption.bind String.fromUTF8? = some "5 bytes" ∧
      SameOutcome (sizePress.render sizeWorld sizeTemplate []).1
        (usedPress.render sizeWorld sizeTemplate []).1 := by
  refine ⟨by decide +kernel, by decide +kernel, by decide +kernel, by decide +kernel, by decide +kernel, ?_⟩
  exact (renders_stand_alone (eq_ok_get isSome_sizePress) .start (eq_ok_get isSome_sizePress)
    run_usedPress []).1 seeTheSame_sizeTemplate

/-! ## The clock goes on -/

/-- What one would say without a thought of the clock: renderings that meet the same come to the same,
whatever has been done before. -/
def MeetingSuffices : Prop :=
  ∀ (w₀ w₀' w w' : World) (s s' : Settings) (directory directory' : Path) (p₀ p₀' p p' : Press)
    (t t' : Template) (vars : Table Json),
    Press.ofSettings w₀ s directory = .ok p₀ → Press.Run p₀ p →
    Press.ofSettings w₀' s' directory' = .ok p₀' → Press.Run p₀' p' →
    Press.MeetTheSame w w' p p' t t' → SameOutcome (p.render w t vars).1 (p'.render w' t' vars).1

/-- The properties file has been edited, and whatever is asked in a rendering is asked a second later. -/
def resizedWorld : World where
  disk := { entries := [
    (["work"], .directory), (["press"], .directory),
    (["press", "cfg.properties"], .file "size=7".toUTF8 2)] }
  outside := { elapsed := fun _ => 1 }

/-- A press whose source waits for two seconds between two looks. -/
def patientSettings : Settings := { sizeSettings with reloadInterval := 2000 }

theorem isSome_patientPress :
    (Press.ofSettings sizeWorld patientSettings "/work").toOption.isSome = true := by
  decide +kernel

/-- The press of these settings. -/
def patientPress : Press :=
  (Press.ofSettings sizeWorld patientSettings "/work").toOption.get isSome_patientPress

/-- The press after a rendering two seconds later, for which the source has looked at its file. -/
def lookedPress : Press := (patientPress.render { sizeWorld with now := 2 } sizeTemplate []).2.2

theorem isSome_twiceTemplate :
    (sizeTemplate? "\x7b\x7b cfg.size \x7d\x7d \x7b\x7b prop(source='cfg', key='size') \x7d\x7d").isSome
      = true := by
  decide +kernel

/-- A template that comes to a property by the name of the source, and then by a function. -/
def twiceTemplate : Template :=
  (sizeTemplate? "\x7b\x7b cfg.size \x7d\x7d \x7b\x7b prop(source='cfg', key='size') \x7d\x7d").get
    isSome_twiceTemplate

theorem meetTheSame_twiceTemplate :
    Press.MeetTheSame resizedWorld { resizedWorld with now := 3 } patientPress lookedPress twiceTemplate
      twiceTemplate := by
  have hsame : (lookedPress.compiler.refresh { resizedWorld with now := 3 } twiceTemplate).1
      = (patientPress.compiler.refresh resizedWorld twiceTemplate).1 := by
    rw [Compiler.refresh_of_nothing (eq_ok_of_toOption (by decide +kernel)),
      Compiler.refresh_of_nothing (eq_ok_of_toOption (by decide +kernel))]
  exact ⟨by rw [hsame], by rw [hsame], by decide +kernel⟩

/-- **To meet the same does not suffice.**  The file is edited, and a template is rendered for a second, by
a press that has just been made, or a second after a rendering for which its source has looked.  Neither
time the source is due when this begins; the second time it comes due meanwhile, and its function says
what the file has. -/
theorem not_meetingSuffices : ¬ MeetingSuffices := by
  intro hclaim
  have hsame := hclaim sizeWorld sizeWorld resizedWorld { resizedWorld with now := 3 } patientSettings
    patientSettings "/work" "/work" patientPress patientPress patientPress lookedPress twiceTemplate
    twiceTemplate [] (eq_ok_get isSome_patientPress) .start (eq_ok_get isSome_patientPress)
    (.step .start (.render _ _ _)) meetTheSame_twiceTemplate
  have hfirst : (patientPress.render resizedWorld twiceTemplate []).1.toOption.bind String.fromUTF8?
      = some "5 5" := by
    decide +kernel
  have hsecond : (lookedPress.render { resizedWorld with now := 3 } twiceTemplate []).1.toOption.bind
      String.fromUTF8? = some "5 7" := by
    decide +kernel
  rw [hsame.toOption_eq, hfirst] at hsecond
  exact absurd hsecond (by decide)

-- nor does it where a template asks the clock itself
example : ∀ now ∈ [7, 8], ((sizeTemplate? "\x7b\x7b now(timestamp=true) \x7d\x7d").bind fun t =>
    (sizePress.render { sizeWorld with now } t []).1.toOption.bind String.fromUTF8?)
      = some (toString now) := by
  decide +kernel

end QueryPress
