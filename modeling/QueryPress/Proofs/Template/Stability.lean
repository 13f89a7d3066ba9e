import QueryPress.Proofs.Resource.Repeating
import QueryPress.Proofs.Template.Settling

/-!
# Proofs/Template/Stability — a refresh brings all there is, or nothing, and the next one nothing more

A refresh either leaves a bundle as it is or puts in place all that the loaders report and all that this
refers to (`refresh_abandons_or_installs`).  As long as no file changes, the next refresh brings nothing
more: after one that was not abandoned because the loaders are at rest then (`refresh_refresh`), and
after one that was abandoned because it is abandoned again (`refresh_refresh_of_abandons`).  The first
needs that no loader is due to look at a file again, the second that no loader waits between its looks.
-/

namespace QueryPress.Bundle

variable {w w' : World} {c c' : Chain} {b : Bundle} {r : Resource}

/-! ## All or nothing -/

/-- **A refresh has installed all there is** — every later copy that the loaders report, and whatever
these refer to beyond what was there, is in place, and everything else is as it was.  The book holds the
texts of the resources and nothing else, and no reference that has to be met is left open. -/
structure Installs (w : World) (c : Chain) (b b' : Bundle) : Prop where
  brought : ∃ reported members, (c.refreshAll w b.resources).1 = .ok reported ∧ reported ⊆ members ∧
    (c.collectChanges w b.resources).1 = .ok members ∧
    ∀ r, r ∈ b'.resources ↔ r ∈ members ∨ (r ∈ b.resources ∧ r.name ∉ members.map Resource.name)
  entry : b'.entry = b.entry
  closed : b'.IsClosed

/-- What the loaders report is part of what is brought. -/
theorem reported_of_collectChanges {members : List Resource} (hc : c.IsSound)
    (h : (c.collectChanges w b.resources).1 = .ok members) :
    ∃ reported, (c.refreshAll w b.resources).1 = .ok reported ∧ reported ⊆ members := by
  have hc' := hc.refreshAll w b.resources
  rw [Chain.collectChanges_eq] at h
  rcases hf : c.refreshAll w b.resources with ⟨(e | reported), c'⟩ <;> rw [hf] at h hc'
  · cases h
  · have hwalk := Chain.walks_collectFrom hc' w (b.resources.map Resource.name) reported
    obtain ⟨asked, -, -, hok⟩ := hwalk.asks hc'
    exact ⟨reported, rfl, (hok members h).2.1⟩

/-- **A refresh is all or nothing** — it is abandoned and leaves the bundle alone, or it is not and installs
all there is. -/
theorem refresh_abandons_or_installs (hc : c.IsSound) (hb : b.IsClosed) :
    (Abandons w c b ∧ (b.refresh w c).1 = b) ∨
      (¬ Abandons w c b ∧ Installs w c b (b.refresh w c).1) := by
  have hclosed := hb.refresh (w := w) hc
  obtain ⟨-, ⟨habandons, heq⟩ | ⟨members, book, hdone, hmembers, -, heq⟩⟩ := refresh_cases w b c
  · exact .inl ⟨habandons, heq⟩
  · obtain ⟨hdistinct, -⟩ := Chain.settles_collectChanges hc hb.nodup hmembers
    obtain ⟨reported, hreported, hsub⟩ := reported_of_collectChanges hc hmembers
    refine .inr ⟨hdone, ⟨reported, members, hreported, hsub, hmembers, ?_⟩, entry_refresh w b c,
      hclosed⟩
    rw [heq]
    exact (mem_foldl_put hdistinct hb.nodup).2.1

/-! ## Once more -/

/-- A refresh that has nothing to bring leaves the bundle alone. -/
theorem refresh_of_nothing (h : (c.collectChanges w b.resources).1 = .ok []) :
    (b.refresh w c).1 = b := by
  obtain ⟨-, ⟨-, heq⟩ | ⟨members, book, -, hmembers, hadd, heq⟩⟩ := refresh_cases w b c
  · exact heq
  · obtain rfl : [] = members := Except.ok.inj (h.symm.trans hmembers)
    have hbook : book = b.book := by
      rw [Book.add?] at hadd
      have hread : Book.read? (texts []) = some [] := rfl
      simp only [hread, Option.bind_eq_bind, Option.bind_some, List.foldl_nil] at hadd
      by_cases hwhole : b.book.isWhole = true <;> simp only [hwhole] at hadd
      · exact (Option.some.inj hadd).symm
      · cases hadd
    rw [heq, hbook]
    rfl

/-- **A refresh that was not abandoned leaves the chain at rest** about all resources. -/
theorem isAtRest_of_refresh (hc : c.IsSound) (hnames : c.names.Nodup) (hb : b.IsClosed)
    (hstray : ∀ r ∈ b.resources, Chain.KeepsNoStray w c r) (hdone : ¬ Abandons w c b) :
    ∀ r ∈ (b.refresh w c).1.resources, Chain.IsAtRest w (b.refresh w c).2 r := by
  obtain ⟨hchain, ⟨habandons, -⟩ | ⟨members, book, -, hmembers, -, heq⟩⟩ := refresh_cases w b c
  · exact absurd habandons hdone
  · obtain ⟨hdistinct, -⟩ := Chain.settles_collectChanges hc hb.nodup hmembers
    obtain ⟨hbrought, hold⟩ := Chain.isAtRest_of_collectChanges hc hnames hb.nodup hstray hmembers
    rw [hchain, heq]
    intro r hr
    rcases ((mem_foldl_put hdistinct hb.nodup).2.1 r).1 hr with hr | ⟨hr, hno⟩
    · exact hbrought r hr
    · exact hold r hr hno

/-- **The refresh after one that was not abandoned brings nothing more** while no file changes and the
loaders that wait are left alone. -/
theorem refresh_refresh (hc : c.IsSound) (hnames : c.names.Nodup) (hb : b.IsClosed)
    (hstray : ∀ r ∈ b.resources, Chain.KeepsNoStray w c r) (hdone : ¬ Abandons w c b)
    (hmodified : ∀ r ∈ (b.refresh w c).1.resources, w'.modified r.path = w.modified r.path)
    (hwaits : Chain.Waits w'.now (b.refresh w c).1.resources (b.refresh w c).2 c') :
    ((b.refresh w c).1.refresh w' c').1 = (b.refresh w c).1 :=
  refresh_of_nothing (Chain.collectChanges_of_isAtRest (hb.refresh hc).nodup
    (isAtRest_of_refresh hc hnames hb hstray hdone) hmodified hwaits)

/-- **The refresh after one that was abandoned is abandoned, too**, while no file changes, if no loader
waits between its looks and they have been asked for names and nothing else in between. -/
theorem refresh_refresh_of_abandons (hc : c.IsSound) (huntimed : c.IsUntimed) (h : w.Unchanged w')
    (hmodified : ∀ r ∈ b.resources, w'.modified r.path = w.modified r.path)
    (hasked : Chain.AskedMeanwhile w (b.refresh w c).2 c') (htimes : Chain.KeepsTimes w w' c')
    (habandons : Abandons w c b) : ((b.refresh w c).1.refresh w' c').1 = b := by
  obtain ⟨hchain, ⟨-, heq⟩ | ⟨members, book, hdone, -⟩⟩ := refresh_cases w b c
  · rw [hchain] at hasked
    have hagain := Chain.collectChanges_again hc huntimed h hmodified hasked htimes
    rw [heq]
    obtain ⟨-, ⟨-, heq'⟩ | ⟨members, book, -, hmembers, hadd, -⟩⟩ := refresh_cases w' b c'
    · exact heq'
    · rw [habandons members (hagain.symm.trans hmembers)] at hadd
      cases hadd
  · exact absurd habandons hdone

end QueryPress.Bundle
