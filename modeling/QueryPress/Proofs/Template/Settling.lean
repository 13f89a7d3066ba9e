import QueryPress.Proofs.Markup.Written
import QueryPress.Proofs.Template.Upkeep

/-!
# Proofs/Template/Settling — a bundle settles what its texts refer to

A bundle is *closed* if its book holds the texts of its resources and nothing else, and one of the
candidates of every reference that has to be met is among them.  Every bundle is closed when it is made
(`isClosed_of_ofRoot`) and after every refresh (`IsClosed.refresh`), whatever the world and the loaders
have come to.  So a book whose pages ask for nothing but what their texts are seen to refer to is
settled (`IsClosed.isSettled`).
-/

namespace QueryPress

/-! ## What a text refers to and what is written in it -/

/-- **What a text asks for is seen** — each request that has to be met is met if some reference is
that has to be. -/
def IsSeen (text : String) : Prop :=
  ∀ q ∈ Page.asked text, q.optional = false →
    ∃ ref ∈ Reference.ofText text, ref.optional = false ∧ ref.candidates ⊆ q.candidates

/-- **What a text refers to is meant** — each reference that has to be met is met if some request is
that has to be. -/
def IsMeant (text : String) : Prop :=
  ∀ ref ∈ Reference.ofText text, ref.optional = false →
    ∃ q ∈ Page.asked text, q.optional = false ∧ q.candidates ⊆ ref.candidates

namespace Chain

variable {w : World} {c : Chain} {r m : Resource} {rs members changed : List Resource}

/-! ## What a look for later copies brings -/

/-- **Whatever has changed refers to nothing that is not there** — the resources that a look brings
have different names, and each reference of theirs that has to be met is met by an old or a new one. -/
theorem settles_collectChanges (hc : c.IsSound) (hnodup : (rs.map Resource.name).Nodup)
    (h : (c.collectChanges w rs).1 = .ok members) :
    (members.map Resource.name).Nodup ∧
      ∀ m ∈ members, ∀ ref ∈ Reference.ofText m.source, ref.optional = false →
        ∃ n ∈ ref.candidates, n ∈ rs.map Resource.name ++ members.map Resource.name := by
  have hc' := hc.refreshAll w rs
  have hnames : ∀ changed, (refreshAll w rs c).1 = .ok changed → _ := fun _ => names_refreshAll hc
  rw [collectChanges_eq] at h
  rcases hf : refreshAll w rs c with ⟨(e | changed), c'⟩ <;> rw [hf] at h hc' hnames
  · cases h
  · have hsub := hnames changed rfl
    have hend : Answers.Ends (answer w c') (rs.map Resource.name) changed
        (c'.collectFrom w (rs.map Resource.name) changed).1 :=
      ends_collectFrom hc' w fun n => ⟨fun hn => List.mem_append_left _ hn,
        fun hn => (List.mem_append.1 hn).elim id fun hn => hsub.subset hn⟩
    rw [show (c'.collectFrom w (rs.map Resource.name) changed).1 = .ok members from h] at hend
    have hnamed := isNamed_answer hc' w
    have hdistinct := hend.reaches.nodup hnamed (hnodup.sublist hsub)
    have hsettled := hend.reaches.settled hnamed
    rw [List.append_nil] at hdistinct
    refine ⟨hdistinct, fun m hm ref href hneeded => ?_⟩
    rcases hsettled m hm ref href with hin | ⟨hoptional, -⟩
    · simpa using hin
    · rw [hneeded] at hoptional
      cases hoptional

end Chain

namespace Bundle

variable {w : World} {c : Chain} {b : Bundle} {rs ms : List Resource} {book book' : Book}
  {n : String}

/-! ## Books that hold nothing but their resources -/

/-- A book holds nothing but pages of the names of the resources. -/
def Covers (rs : List Resource) (book : Book) : Prop :=
  ∀ n, Table.has book n = true → n ∈ rs.map Resource.name

theorem has_eq : Table.has book n = (book.source? n).isSome := by
  rw [Table.has, Book.source?, Option.isSome_map]

theorem Agrees.has (h : Agrees book rs) (hn : n ∈ rs.map Resource.name) :
    Table.has book n = true := by
  obtain ⟨r, hr, rfl⟩ := List.mem_map.1 hn
  rw [has_eq, h r hr]
  rfl

theorem covers_add? (hadd : book.add? (texts ms) = some book') (h : Covers rs book) :
    ∀ n, Table.has book' n = true → n ∈ ms.map Resource.name ∨ n ∈ rs.map Resource.name := by
  intro n hn
  rw [has_eq, Book.source?_add? hadd] at hn
  by_cases hin : n ∈ ms.map Resource.name
  · exact .inl hin
  · rw [lookup_texts_of_not_mem hin, Option.none_or, ← has_eq] at hn
    exact .inr (h n hn)

/-- **A bundle is closed** — its book holds the texts of its resources, as pages, and nothing else; and
each reference of theirs that has to be met is met by one of them. -/
structure IsClosed (b : Bundle) : Prop where
  nodup : (b.resources.map Resource.name).Nodup
  read : b.book.IsRead
  agrees : Agrees b.book b.resources
  covers : Covers b.resources b.book
  settled : ∀ r ∈ b.resources, ∀ ref ∈ Reference.ofText r.source, ref.optional = false →
    ∃ n ∈ ref.candidates, n ∈ b.resources.map Resource.name

/-- **Every bundle that is made is closed.** -/
theorem isClosed_of_ofRoot {label : String} {root : Resource} (hc : c.IsSound)
    (h : (ofRoot w label root c).1 = .ok b) : b.IsClosed := by
  obtain ⟨members, book, hmembers, hadd, rfl⟩ := (ofRoot_cases w label root c).2 b h
  have hclosure := (Chain.isClosure_of_collect hc hmembers).1
  refine ⟨hclosure.nodup, Book.IsRead.add? (fun n p hp => by simp at hp) hadd,
    agrees_of_add? hclosure.nodup hadd, fun n hn => ?_, fun r hr ref href hneeded => ?_⟩
  · have hnone : Covers [] [] := fun n hn => by simp [Table.has] at hn
    exact (covers_add? hadd hnone n hn).elim id (by simp)
  · rcases hclosure.settled r hr ref href with hin | ⟨hoptional, -⟩
    · exact hin
    · rw [hneeded] at hoptional
      cases hoptional

/-- **A closed bundle stays closed through every refresh.** -/
theorem IsClosed.refresh (hc : c.IsSound) (h : b.IsClosed) : (b.refresh w c).1.IsClosed := by
  obtain ⟨-, ⟨-, hb⟩ | ⟨changed, book, -, hchanged, hadd, hb⟩⟩ := refresh_cases w b c <;> rw [hb]
  · exact h
  · obtain ⟨hdistinct, hsettles⟩ := Chain.settles_collectChanges hc h.nodup hchanged
    obtain ⟨hnodup, hmem, hnames⟩ := mem_foldl_put hdistinct h.nodup
    refine ⟨hnodup, h.read.add? hadd, h.agrees.add? hdistinct h.nodup hadd, fun n hn => ?_,
      fun r hr ref href hneeded => ?_⟩
    · exact (hnames n).2 (covers_add? hadd h.covers n hn)
    · rcases (hmem r).1 hr with hr | ⟨hr, -⟩
      · obtain ⟨n, hn, hin⟩ := hsettles r hr ref href hneeded
        exact ⟨n, hn, (hnames n).2 (List.mem_append.1 hin).symm⟩
      · obtain ⟨n, hn, hin⟩ := h.settled r hr ref href hneeded
        exact ⟨n, hn, (hnames n).2 (.inr hin)⟩

/-- **A closed bundle has a page for every request that is seen.** -/
theorem IsClosed.settles (h : b.IsClosed) {r : Resource} (hr : r ∈ b.resources)
    (hseen : IsSeen r.source) : b.book.Settles (Page.asked r.source) := by
  intro q hq hneeded
  obtain ⟨ref, href, href', hsub⟩ := hseen q hq hneeded
  obtain ⟨n, hn, hin⟩ := h.settled r hr ref href href'
  exact ⟨n, hsub hn, h.agrees.has hin⟩

/-- **The book of a closed bundle is settled** if all that its texts ask for is seen. -/
theorem IsClosed.isSettled (h : b.IsClosed) (hseen : ∀ r ∈ b.resources, IsSeen r.source) :
    b.book.IsSettled where
  read := h.read
  settles n p hp := by
    obtain ⟨r, hr, rfl⟩ := List.mem_map.1 (h.covers n (by simp [Table.has, hp]))
    have hsource : r.source = p.source := by
      have hsource := h.agrees r hr
      rw [Book.source?, hp] at hsource
      exact (Option.some.inj hsource).symm
    have hasked := h.settles hr (hseen r hr)
    rw [hsource] at hasked
    exact hasked.mono (Page.requests_subset_asked (h.read _ p hp))

end Bundle

end QueryPress
