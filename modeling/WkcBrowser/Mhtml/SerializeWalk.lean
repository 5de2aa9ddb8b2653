import Mathlib.Data.Finset.Card
import WkcBrowser.Mhtml.SerializeResource

/-! The walk over the archive that every call restarts. It is a walk over the list of all resources,
it passes over the empty ones and the ones whose URL was written before, and so it finds the
resources that are still pending in their order. -/

namespace WkcBrowser.Mhtml
open Wtf

/-- The resources a walk finds new, the URLs of the given list being written already. -/
def newResources : List Text → List ArchiveResource → List ArchiveResource
  | _, [] => []
  | seen, resource :: rest =>
    if resource.data.isEmpty || decide (resource.url ∈ seen) then newResources seen rest
    else resource :: newResources (resource.url :: seen) rest

/-- The URLs of the resources that have content. -/
def contentUrls (resources : List ArchiveResource) : Finset Text :=
  ((resources.filter fun resource => !resource.data.isEmpty).map (·.url)).toFinset

theorem contentUrls_append (front back : List ArchiveResource) :
    contentUrls (front ++ back) = contentUrls front ∪ contentUrls back := by
  simp [contentUrls]

theorem contentUrls_cons_empty {resource : ArchiveResource} (rest : List ArchiveResource)
    (nothing : resource.data = []) : contentUrls (resource :: rest) = contentUrls rest := by
  simp [contentUrls, nothing]

theorem contentUrls_cons {resource : ArchiveResource} (rest : List ArchiveResource)
    (content : resource.data ≠ []) :
    contentUrls (resource :: rest) = insert resource.url (contentUrls rest) := by
  simp [contentUrls, content]

theorem newResources_length (seen : List Text) (resources : List ArchiveResource) :
    (newResources seen resources).length = (contentUrls resources \ seen.toFinset).card := by
  induction resources generalizing seen with
  | nil => simp [newResources, contentUrls]
  | cons resource rest ih =>
    unfold newResources
    split <;> rename_i test
    · rw [ih]
      congr 1
      simp only [Bool.or_eq_true, List.isEmpty_iff, decide_eq_true_eq] at test
      rcases Decidable.em (resource.data = []) with nothing | content
      · rw [contentUrls_cons_empty rest nothing]
      · rw [contentUrls_cons rest content,
          Finset.insert_sdiff_of_mem _ (by simpa [content] using test)]
    · simp only [Bool.or_eq_true, List.isEmpty_iff, decide_eq_true_eq, not_or] at test
      rw [List.length_cons, ih, contentUrls_cons rest test.1, List.toFinset_cons]
      have fresh : resource.url ∉ seen.toFinset := by simpa using test.2
      rw [Finset.insert_sdiff_of_notMem _ fresh, Finset.sdiff_insert,
        ← Finset.card_erase_add_one (Finset.mem_insert_self resource.url _),
        Finset.erase_insert_eq_erase]

theorem newResources_data (seen : List Text) (resources : List ArchiveResource) :
    ∀ part ∈ newResources seen resources, part.data ≠ [] := by
  induction resources generalizing seen with
  | nil => simp [newResources]
  | cons resource rest ih =>
    unfold newResources
    split <;> rename_i test
    · exact ih seen
    · simp only [Bool.or_eq_true, List.isEmpty_iff, decide_eq_true_eq, not_or] at test
      intro part member
      rcases List.mem_cons.mp member with rfl | later
      · exact test.1
      · exact ih _ part later

/-- Once the first new resource is marked as written, the walk finds the others. -/
theorem newResources_insert {seen : List Text} {resources more : List ArchiveResource}
    {resource : ArchiveResource} (found : newResources seen resources = resource :: more) :
    newResources (resource.url :: seen) resources = more := by
  induction resources generalizing seen with
  | nil => simp [newResources] at found
  | cons head rest ih =>
    unfold newResources at found
    split at found <;> rename_i test
    · rw [newResources, if_pos, ih found]
      simp only [Bool.or_eq_true, List.isEmpty_iff, decide_eq_true_eq] at test ⊢
      exact test.imp id (List.mem_cons_of_mem _)
    · obtain ⟨rfl, rfl⟩ := List.cons.inj found
      rw [newResources, if_pos (by simp)]

namespace Serializer

theorem serializeResources_append {front back : List ArchiveResource} {s : Serializer}
    (going : front ≠ [] ∨ s.halted = false) :
    serializeResources (front ++ back) s =
      if (serializeResources front s).halted then serializeResources front s
      else serializeResources back (serializeResources front s) := by
  induction front generalizing s with
  | nil =>
    have open_ : s.halted = false := going.resolve_left (by simp)
    simp [serializeResources, open_]
  | cons resource rest ih =>
    simp only [List.cons_append, serializeResources]
    rcases Bool.eq_false_or_eq_true (serializeResourceIfNew resource s).halted with stopped | open_
    · simp only [stopped, if_true]
    · simpa only [open_, Bool.false_eq_true, if_false] using ih (.inr open_)

mutual

/-- The recursive walk is the walk over the list of the resources. -/
theorem serializeTree_eq : ∀ (archive : MHTMLWebArchive) (s : Serializer),
    serializeTree archive s = serializeResources archive.resources s
  | .mk main subresources subframes, s => by
    simp only [serializeTree, MHTMLWebArchive.resources, serializeResources]
    rcases Bool.eq_false_or_eq_true (serializeResourceIfNew main s).halted with stopped | open_
    · simp only [stopped, if_true]
    · simp only [open_, Bool.false_eq_true, if_false, serializeSubframes_eq]
      rw [serializeResources_append (.inr open_)]

theorem serializeSubframes_eq : ∀ (archives : List MHTMLWebArchive) (s : Serializer),
    serializeSubframes archives s = serializeResources (frameResources archives) s
  | [], s => rfl
  | archive :: rest, s => by
    have some_ : archive.resources ≠ [] := by
      cases archive
      simp [MHTMLWebArchive.resources]
    rw [serializeSubframes, frameResources, serializeTree_eq, serializeResources_append (.inl some_),
      serializeSubframes_eq]

end

/-- The resources before the first new one leave the serializer alone. -/
theorem serializeResources_skip {resources more : List ArchiveResource} {resource : ArchiveResource}
    {s : Serializer} (going : s.halted = false)
    (found : newResources s.uniqueSubresources resources = resource :: more) :
    ∃ rest, newResources (resource.url :: s.uniqueSubresources) rest = more ∧
      serializeResources resources s =
        if (serializeResourceIfNew resource s).halted then serializeResourceIfNew resource s
        else serializeResources rest (serializeResourceIfNew resource s) := by
  induction resources with
  | nil => simp [newResources] at found
  | cons head tail ih =>
    unfold newResources at found
    split at found <;> rename_i test
    · have same : serializeResourceIfNew head s = s := by
        simp only [Bool.or_eq_true, List.isEmpty_iff, decide_eq_true_eq] at test
        unfold serializeResourceIfNew
        split
        · rfl
        · rename_i content
          rw [if_pos (test.resolve_left (by simpa using content))]
      obtain ⟨rest, later, run⟩ := ih found
      exact ⟨rest, later, by rw [serializeResources, same, if_neg (by simp [going]), run]⟩
    · obtain ⟨rfl, tailFound⟩ := List.cons.inj found
      exact ⟨tail, tailFound, rfl⟩

/-- For a resource the walk finds new, `serializeResourceIfNew` runs `serializeResource`. -/
theorem serializeResourceIfNew_new {resources more : List ArchiveResource}
    {resource : ArchiveResource} {s : Serializer}
    (found : newResources s.uniqueSubresources resources = resource :: more) :
    serializeResourceIfNew resource s =
      if (serializeResource resource s).1 then
        { (serializeResource resource s).2 with
          uniqueSubresources :=
            resource.url :: (serializeResource resource s).2.uniqueSubresources }
      else (serializeResource resource s).2 := by
  have content : resource.data ≠ [] :=
    newResources_data s.uniqueSubresources resources resource (by simp [found])
  have fresh : resource.url ∉ s.uniqueSubresources := by
    induction resources with
    | nil => simp [newResources] at found
    | cons head tail ih =>
      unfold newResources at found
      split at found <;> rename_i test
      · exact ih found
      · obtain ⟨rfl, -⟩ := List.cons.inj found
        simp only [Bool.or_eq_true, decide_eq_true_eq, not_or] at test
        exact test.2
  unfold serializeResourceIfNew
  rw [if_neg (by simpa using content), if_neg fresh]
  rcases serializeResource resource s with ⟨_ | _, s'⟩ <;> rfl

end Serializer
end WkcBrowser.Mhtml

/-! What `caculateItems` counts: a set of URLs of resources that have content. The serializing walk
finds a new resource for every such URL, so the count never exceeds what the walk can emit. -/

namespace WkcBrowser.Mhtml
open Wtf

/-- From one count to another only URLs of the given set were added, each counted once. -/
structure Counts (urls : Finset Text) (before after : Nat × List Text) : Prop where
  grows : before.2.toFinset ⊆ after.2.toFinset
  within : after.2.toFinset ⊆ before.2.toFinset ∪ urls
  balance : after.1 + before.2.toFinset.card = before.1 + after.2.toFinset.card

namespace Counts

theorem refl (urls : Finset Text) (counted : Nat × List Text) : Counts urls counted counted :=
  ⟨Finset.Subset.refl _, Finset.subset_union_left, rfl⟩

theorem trans {front back : Finset Text} {a b c : Nat × List Text} (first : Counts front a b)
    (second : Counts back b c) : Counts (front ∪ back) a c := by
  refine ⟨first.grows.trans second.grows, ?_, ?_⟩
  · refine second.within.trans (Finset.union_subset (first.within.trans ?_) ?_)
    · exact Finset.union_subset_union_right Finset.subset_union_left
    · exact Finset.subset_union_right.trans Finset.subset_union_right
  · have one := first.balance
    have two := second.balance
    omega

theorem insert {url : Text} {urls : Finset Text} {items : Nat} {seen : List Text}
    (member : url ∈ urls) (fresh : url ∉ seen) :
    Counts urls (items, seen) (items + 1, url :: seen) := by
  have fresh' : url ∉ seen.toFinset := by simpa using fresh
  refine ⟨?_, ?_, ?_⟩
  · rw [List.toFinset_cons]
    exact Finset.subset_insert _ _
  · rw [List.toFinset_cons]
    exact Finset.insert_subset (Finset.mem_union_right _ member) Finset.subset_union_left
  · rw [List.toFinset_cons, Finset.card_insert_of_notMem fresh']
    dsimp only
    omega

end Counts

theorem caculateResource_counts (counted : Nat × List Text) (resource : ArchiveResource) :
    Counts (contentUrls [resource]) counted (caculateResource counted resource) := by
  obtain ⟨items, seen⟩ := counted
  simp only [caculateResource]
  split <;> rename_i test
  · simp only [Bool.and_eq_true, Bool.not_eq_true', List.isEmpty_eq_false_iff,
      decide_eq_false_iff_not] at test
    refine Counts.insert ?_ test.2
    rw [contentUrls_cons _ test.1]
    exact Finset.mem_insert_self _ _
  · exact Counts.refl _ _

theorem caculateResources_counts (resources : List ArchiveResource) (counted : Nat × List Text) :
    Counts (contentUrls resources) counted (resources.foldl caculateResource counted) := by
  induction resources generalizing counted with
  | nil => exact Counts.refl _ _
  | cons resource rest ih =>
    have step := (caculateResource_counts counted resource).trans (ih _)
    rw [← contentUrls_append] at step
    exact step

mutual

theorem caculateItems_counts : ∀ (archive : MHTMLWebArchive) (counted : Nat × List Text),
    Counts (contentUrls archive.resources) counted (caculateItems archive counted)
  | .mk main subresources subframes, (items, seen) => by
    unfold caculateItems
    split <;> rename_i test
    · exact Counts.refl _ _
    · simp only [Bool.or_eq_true, List.isEmpty_iff, decide_eq_true_eq, not_or] at test
      rw [MHTMLWebArchive.resources, contentUrls_cons _ test.1, contentUrls_append,
        Finset.insert_eq]
      have first : Counts {main.url} (items, seen) (items + 1, main.url :: seen) :=
        Counts.insert (Finset.mem_singleton_self _) test.2
      exact first.trans ((caculateResources_counts subresources _).trans
        (caculateFrames_counts subframes _))

theorem caculateFrames_counts : ∀ (archives : List MHTMLWebArchive) (counted : Nat × List Text),
    Counts (contentUrls (frameResources archives)) counted (caculateFrames archives counted)
  | [], counted => Counts.refl _ _
  | archive :: rest, counted => by
    rw [caculateFrames, frameResources, contentUrls_append]
    exact (caculateItems_counts archive counted).trans (caculateFrames_counts rest _)

end

theorem caculateItems_le (archive : MHTMLWebArchive) :
    (caculateItems archive (0, [])).1 ≤ (newResources [] archive.resources).length := by
  have counts := caculateItems_counts archive (0, [])
  have least := Finset.card_le_card counts.within
  have balance := counts.balance
  simp only [List.toFinset_nil, Finset.empty_union, Finset.card_empty] at least balance
  rw [newResources_length, List.toFinset_nil, Finset.sdiff_empty]
  omega

/-- Nothing is counted of an archive whose main resource is empty. -/
theorem newResources_of_items {main : ArchiveResource} {subresources : List ArchiveResource}
    {subframes : List MHTMLWebArchive}
    (some_ : (caculateItems (.mk main subresources subframes) (0, [])).1 ≠ 0) :
    newResources [] (MHTMLWebArchive.mk main subresources subframes).resources =
      main :: newResources [main.url] (subresources ++ frameResources subframes) := by
  unfold caculateItems at some_
  split at some_ <;> rename_i test
  · exact absurd rfl some_
  · simp only [MHTMLWebArchive.resources, newResources, if_neg test]

end WkcBrowser.Mhtml
