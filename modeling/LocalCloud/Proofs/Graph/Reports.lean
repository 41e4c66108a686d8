import LocalCloud.Proofs.Graph.Cycles

/-!
# The nodes on reported cycles

The search comes to each node once.  A node that it has searched to the end is on no cycle that
closes later, so a cycle through a node can go unreported: it is when each cycle through the node
meets another one that the search had finished before it came to that node.

* Each entry of the search into a node is an `Enters`, with the path to the node and with what the
  search knew then.
* What a search from a node adds (`Grows`, `Traces`) is carried from neighbour to neighbour, and on
  to the end of the whole search.
* A reported cycle passes a node exactly when a way leads from the node back to it that avoids what
  was finished before (`reported_exact`).
-/

namespace LocalCloud.Graph

open Relation (TransGen ReflTransGen)

variable {g : Graph} {node next v w x : String} {path seen before after : List String}
variable {s t u : Search}

/-! ## Where the search goes -/

/-- The search from a node to which no path leads, unless it has been searched to the end. -/
def start (g : Graph) (s : Search) (id : String) : Search :=
  if id ∈ s.done then s else visit g [id] id s

theorem searched_eq : g.searched = g.ids.foldl g.start {} := rfl

/-- The search comes to a node for the first time: the path to it (the nearest node first), the node
and what the search knows then. -/
inductive Enters (g : Graph) : List String → String → Search → Prop
  | first {before after : List String} {id : String} : g.ids = before ++ id :: after →
      id ∉ (before.foldl g.start {}).done → Enters g [] id (before.foldl g.start {})
  | next {path : List String} {node : String} {s : Search} {before after : List String}
      {next : String} : Enters g path node s → g.dependents node = before ++ next :: after →
      next ∉ node :: path → next ∉ (before.foldl (g.look (node :: path)) s).done →
      Enters g (node :: path) next (before.foldl (g.look (node :: path)) s)

/-- What holds when the search comes to a node. -/
structure Entered (g : Graph) (path : List String) (node : String) (s : Search) : Prop where
  isPath : g.IsPath (node :: path)
  known : node ∈ g.ids
  new : node ∉ path
  unfinished : node ∉ s.done
  consistent : g.Consistent path s

namespace Entered

theorem visits (hformed : g.Formed) (h : g.Entered path node s) :
    g.Visits path node s (g.visit (node :: path) node s) :=
  visits_visit hformed (node :: path) node s path rfl h.isPath h.known h.new h.unfinished
    h.consistent

theorem looking (hformed : g.Formed) (h : g.Entered path node s)
    (hsplit : g.dependents node = before ++ after) :
    g.Looking path node s (before.foldl (g.look (node :: path)) s) before := by
  have hnodup : before.Nodup := by
    refine (nodup_dependents g node).sublist ?_
    rw [hsplit]
    exact List.sublist_append_left before after
  refine (h.consistent.looking h.known h.new h.unfinished).foldl hformed h.isPath ?_ hnodup ?_
  · intro t next hnext hid hdone hedge ht
    exact visits hformed ⟨List.IsChain.cons_cons hedge h.isPath, hid, hnext, hdone, ht⟩
  · intro next hnext
    rw [← mem_dependents_iff, hsplit]
    exact List.mem_append_left after hnext

/-- No node of the path has been searched to the end, nor has the node itself. -/
theorem unfinished_of_looking (h : g.Looking path node s t seen) (hx : x ∈ node :: path) :
    x ∉ t.done :=
  fun hdone => (List.nodup_append.1 h.consistent.nodup).2.2 x hx x hdone rfl

end Entered

theorem leads_of_dependents (hsplit : g.dependents node = before ++ next :: after) :
    g.Leads node next := by
  rw [← mem_dependents_iff, hsplit]
  exact List.mem_append_right before List.mem_cons_self

theorem Enters.entered (hformed : g.Formed) (h : g.Enters path node s) :
    g.Entered path node s := by
  induction h with
  | @first before after id hsplit hdone =>
    have hids : before ++ id :: after ⊆ g.ids := by rw [hsplit]; exact List.Subset.refl _
    obtain ⟨hbefore, hafter⟩ := List.append_subset.1 hids
    exact {
      isPath := List.isChain_singleton id
      known := hafter List.mem_cons_self
      new := List.not_mem_nil
      unfinished := hdone
      consistent := (consistent_foldl hformed hbefore (consistent_empty g)).1 }
  | @next path node s before after next _ hsplit hnew hdone ih =>
    have hedge := leads_of_dependents hsplit
    exact {
      isPath := List.IsChain.cons_cons hedge ih.isPath
      known := hformed.target_mem hedge
      new := hnew
      unfinished := hdone
      consistent := (ih.looking hformed hsplit).consistent }

/-! ## What a search adds -/

theorem mem_closeCycle :
    x ∈ closeCycle path next ↔ x ∈ path.takeWhile (· != next) ∨ x = next := by
  simp only [closeCycle, List.mem_append, List.mem_reverse, List.mem_singleton, or_assoc, or_self]

/-- What a search adds while `path` stays as it is: each new cycle is made of nodes that were not
finished before. -/
structure Grows (path : List String) (s t : Search) : Prop where
  done : s.done ⊆ t.done
  cycles : s.cycles ⊆ t.cycles
  fresh : ∀ c ∈ t.cycles, c ∈ s.cycles ∨ ∀ x ∈ c, x ∉ s.done ∧ (x ∈ path ∨ x ∈ t.done)

namespace Grows

theorem refl (path : List String) (s : Search) : Grows path s s :=
  ⟨List.Subset.refl _, List.Subset.refl _, fun _ hc => .inl hc⟩

theorem trans (h : Grows path s t) (h' : Grows path t u) : Grows path s u where
  done := List.Subset.trans h.done h'.done
  cycles := List.Subset.trans h.cycles h'.cycles
  fresh := by
    intro c hc
    rcases h'.fresh c hc with hc | hnew
    · refine (h.fresh c hc).imp_right fun hnew x hx => ?_
      obtain ⟨hdone, hplace⟩ := hnew x hx
      exact ⟨hdone, hplace.imp_right fun hx => h'.done hx⟩
    · refine .inr fun x hx => ?_
      obtain ⟨hdone, hplace⟩ := hnew x hx
      exact ⟨fun hs => hdone (h.done hs), hplace⟩

theorem mono {path' : List String} (h : Grows path s t) (hsub : path ⊆ path') :
    Grows path' s t where
  done := h.done
  cycles := h.cycles
  fresh := by
    intro c hc
    refine (h.fresh c hc).imp_right fun hnew x hx => ?_
    obtain ⟨hdone, hplace⟩ := hnew x hx
    exact ⟨hdone, hplace.imp_left fun hx => hsub hx⟩

/-- The last node of the path has been searched to the end. -/
theorem finish (h : Grows (node :: path) s t) :
    Grows path s { t with done := node :: t.done } where
  done := List.Subset.trans h.done (List.subset_cons_self node t.done)
  cycles := h.cycles
  fresh := by
    intro c hc
    refine (h.fresh c hc).imp_right fun hnew x hx => ?_
    obtain ⟨hdone, hplace⟩ := hnew x hx
    refine ⟨hdone, ?_⟩
    rcases hplace with hpath | hx
    · rcases List.mem_cons.1 hpath with rfl | hpath
      · exact .inr List.mem_cons_self
      · exact .inl hpath
    · exact .inr (List.mem_cons_of_mem _ hx)

/-- A cycle that an edge back to the path closes, when nothing on the path is finished. -/
theorem close (hnew : ∀ x ∈ path, x ∉ s.done) (hnext : next ∈ path) :
    Grows path s { s with cycles := s.cycles ++ [closeCycle path next] } where
  done := List.Subset.refl _
  cycles := List.subset_append_left _ _
  fresh := by
    intro c hc
    refine (List.mem_append.1 hc).imp_right fun hc x hx => ?_
    rw [List.mem_singleton.1 hc, mem_closeCycle] at hx
    have hpath : x ∈ path := by
      rcases hx with hx | rfl
      · exact (List.takeWhile_sublist _).subset hx
      · exact hnext
    exact ⟨hnew x hpath, .inl hpath⟩

end Grows

/-- An edge to `x` from a node below the head of `full` is dealt with: either `x` is on the path and
the cycle through what lies between is reported, or `x` has been searched to the end. -/
def Search.Handled (t : Search) (full : List String) (x : String) : Prop :=
  (x ∈ full ∧ ∃ c ∈ t.cycles, x ∈ c ∧ full.takeWhile (· != x) ⊆ c) ∨ (x ∉ full ∧ x ∈ t.done)

theorem Search.Handled.mono {full : List String} (h : t.Handled full x) (hgrows : Grows path t u) :
    u.Handled full x := by
  refine h.imp ?_ fun ⟨hx, hdone⟩ => ⟨hx, hgrows.done hdone⟩
  rintro ⟨hx, c, hc, hmem⟩
  exact ⟨hx, c, hgrows.cycles hc, hmem⟩

/-- The same along the path without its last node, once that is finished. -/
theorem Search.Handled.tail {full : List String} (h : t.Handled (next :: full) x)
    (hnew : next ∉ full) (hdone : next ∈ t.done) : t.Handled full x := by
  by_cases hx : x = next
  · rw [hx]
    exact .inr ⟨hnew, hdone⟩
  have hne : (next != x) = true := bne_iff_ne.2 fun h => hx h.symm
  rcases h with ⟨hmem, c, hc, hxc, hsub⟩ | ⟨hmem, hfinished⟩
  · rw [List.takeWhile_cons, if_pos hne] at hsub
    refine .inl ⟨(List.mem_cons.1 hmem).resolve_left hx, c, hc, hxc, ?_⟩
    exact (List.cons_subset.1 hsub).2
  · exact .inr ⟨fun hfull => hmem (List.mem_cons_of_mem _ hfull), hfinished⟩

/-- What is known of a node that the search has finished below the head of `full`. -/
structure Tracked (g : Graph) (full : List String) (t : Search) (w : String) : Prop where
  entered : ∃ path s, g.Enters path w s
  handled : ∀ {x}, g.Leads w x → t.Handled full x

theorem Tracked.mono {full : List String} (h : g.Tracked full t w) (hgrows : Grows path t u) :
    g.Tracked full u w :=
  ⟨h.entered, fun hedge => (h.handled hedge).mono hgrows⟩

/-- What searching from `node` does. -/
structure Traces (g : Graph) (path : List String) (node : String) (s t : Search) : Prop where
  grows : Grows path s t
  finished : node ∈ t.done
  tracked : ∀ w ∈ t.done, w ∈ s.done ∨ g.Tracked (node :: path) t w

/-- What holds of a search from `node` when it has come to the neighbours `seen`. -/
structure Tracing (g : Graph) (path : List String) (node : String) (s t : Search)
    (seen : List String) : Prop where
  grows : Grows (node :: path) s t
  tracked : ∀ w ∈ t.done, w ∈ s.done ∨ g.Tracked (node :: path) t w
  handled : ∀ x ∈ seen, t.Handled (node :: path) x

namespace Tracing

theorem snoc (h : g.Tracing path node s t seen) (hgrows : Grows (node :: path) t u)
    (htracked : ∀ w ∈ u.done, w ∈ t.done ∨ g.Tracked (node :: path) u w)
    (hnext : u.Handled (node :: path) next) : g.Tracing path node s u (seen ++ [next]) where
  grows := h.grows.trans hgrows
  tracked := by
    intro w hw
    rcases htracked w hw with hw | hw
    · exact (h.tracked w hw).imp_right fun hw => hw.mono hgrows
    · exact .inr hw
  handled := by
    intro x hx
    rcases List.mem_append.1 hx with hx | hx
    · exact (h.handled x hx).mono hgrows
    · rw [List.mem_singleton.1 hx]
      exact hnext

theorem visit (h : g.Tracing path node s t seen) (hnew : next ∉ node :: path)
    (hvisit : g.Traces (node :: path) next t u) : g.Tracing path node s u (seen ++ [next]) := by
  refine h.snoc hvisit.grows ?_ (.inr ⟨hnew, hvisit.finished⟩)
  intro w hw
  refine (hvisit.tracked w hw).imp_right fun hw => ⟨hw.entered, fun hedge => ?_⟩
  exact (hw.handled hedge).tail hnew hvisit.finished

/-- The next neighbour, if searching from it does what it should. -/
theorem look (hformed : g.Formed) (henters : g.Enters path node s)
    (hsplit : g.dependents node = before ++ next :: after)
    (h : g.Tracing path node s (before.foldl (g.look (node :: path)) s) before)
    (hvisit : ∀ t, next ∉ node :: path → next ∈ g.ids → g.Enters (node :: path) next t →
      g.Traces (node :: path) next t (g.visit (next :: node :: path) next t)) :
    g.Tracing path node s
      (g.look (node :: path) (before.foldl (g.look (node :: path)) s) next) (before ++ [next]) := by
  have hlooking := (henters.entered hformed).looking hformed hsplit
  have hopen := fun x hx => Entered.unfinished_of_looking hlooking (x := x) hx
  rw [Graph.look]
  split
  · next hnext =>
    refine h.snoc (.close hopen hnext) (fun w hw => .inl hw) (.inl ⟨hnext, ?_⟩)
    exact ⟨closeCycle (node :: path) next, List.mem_append_right _ List.mem_cons_self,
      mem_closeCycle.2 (.inr rfl), fun x hx => mem_closeCycle.2 (.inl hx)⟩
  next hnext =>
  split
  · next hdone => exact h.snoc (.refl _ _) (fun w hw => .inl hw) (.inr ⟨hnext, hdone⟩)
  next hdone =>
  split
  · next hid => exact h.visit hnext (hvisit _ hnext hid (.next henters hsplit hnext hdone))
  · next hid => exact absurd (hformed.target_mem (leads_of_dependents hsplit)) hid

/-- When all neighbours have been looked at, the node has been searched to the end. -/
theorem traces (henters : g.Enters path node s)
    (h : g.Tracing path node s t (g.dependents node)) :
    g.Traces path node s { t with done := node :: t.done } := by
  have hgrows : Grows (node :: path) t { t with done := node :: t.done } :=
    (Grows.refl (node :: node :: path) t).finish
  refine ⟨h.grows.finish, List.mem_cons_self, ?_⟩
  intro w hw
  rcases List.mem_cons.1 hw with rfl | hw
  · refine .inr ⟨⟨path, s, henters⟩, fun hedge => ?_⟩
    exact (h.handled _ (mem_dependents_iff.2 hedge)).mono hgrows
  · exact (h.tracked w hw).imp_right fun hw => hw.mono hgrows

end Tracing

theorem traces_visit (hformed : g.Formed) (full : List String) (node : String) (s : Search) :
    ∀ path, full = node :: path → g.Enters path node s →
      g.Traces path node s (g.visit full node s) := by
  induction full, node, s using visit.induct g with
  | case1 full node s ih =>
    rintro path rfl henters
    rw [visit_eq]
    refine Tracing.traces henters ?_
    suffices h : ∀ before after, g.dependents node = before ++ after →
        g.Tracing path node s (before.foldl (g.look (node :: path)) s) before from
      h (g.dependents node) [] (List.append_nil _).symm
    intro before
    induction before using List.reverseRecOn with
    | nil =>
      intro after _
      exact ⟨.refl _ _, fun w hw => .inl hw, by simp⟩
    | append_singleton before next hbefore =>
      intro after hsplit
      rw [List.append_assoc, List.singleton_append] at hsplit
      rw [List.foldl_concat]
      refine Tracing.look hformed henters hsplit (hbefore _ hsplit) ?_
      intro t hnext hid ht
      exact ih t next hnext hid (node :: path) rfl ht

theorem Enters.traces (hformed : g.Formed) (h : g.Enters path node s) :
    g.Traces path node s (g.visit (node :: path) node s) :=
  traces_visit hformed (node :: path) node s path rfl h

/-! ## The whole search -/

/-- A fold leads from each of its states to each later one, if each step leads on. -/
theorem foldl_related {α β : Type} {R : β → β → Prop} (hrefl : ∀ b, R b b)
    (htrans : ∀ {b c d}, R b c → R c d → R b d) {f : β → α → β} {b : β} (between before : List α)
    (hstep : ∀ mid x after, between = mid ++ x :: after →
      R ((before ++ mid).foldl f b) (f ((before ++ mid).foldl f b) x)) :
    R (before.foldl f b) ((before ++ between).foldl f b) := by
  induction between using List.reverseRecOn with
  | nil =>
    rw [List.append_nil]
    exact hrefl _
  | append_singleton between x ih =>
    refine htrans (ih fun mid y after hsplit => hstep mid y (after ++ [x]) ?_) ?_
    · rw [hsplit, List.append_assoc, List.cons_append]
    · rw [← List.append_assoc, List.foldl_concat]
      exact hstep between x [] rfl

/-- What the search adds while it looks at some of the neighbours of a node. -/
theorem Enters.grows_looking (hformed : g.Formed) (h : g.Enters path node s)
    {between : List String} (hsplit : g.dependents node = before ++ between ++ after) :
    Grows (node :: path) (before.foldl (g.look (node :: path)) s)
      ((before ++ between).foldl (g.look (node :: path)) s) := by
  refine foldl_related (Grows.refl _) Grows.trans between before ?_
  rintro mid next rest rfl
  have hplace : g.dependents node = (before ++ mid) ++ next :: (rest ++ after) := by
    simpa using hsplit
  have hopen := fun x hx =>
    Entered.unfinished_of_looking ((h.entered hformed).looking hformed hplace) (x := x) hx
  rw [look]
  split
  · next hnext => exact .close hopen hnext
  next hnext =>
  split
  · exact .refl _ _
  next hdone =>
  split
  · exact (Enters.next h hplace hnext hdone).traces hformed |>.grows
  · exact .refl _ _

/-- What the search adds while it starts from some of the nodes. -/
theorem grows_starting (hformed : g.Formed) {between : List String}
    (hsplit : g.ids = before ++ between ++ after) :
    Grows [] (before.foldl g.start {}) ((before ++ between).foldl g.start {}) := by
  refine foldl_related (Grows.refl _) Grows.trans between before ?_
  rintro mid id rest rfl
  have hplace : g.ids = (before ++ mid) ++ id :: (rest ++ after) := by
    simpa using hsplit
  rw [start]
  split
  · exact .refl _ _
  · next hdone => exact (Enters.first hplace hdone).traces hformed |>.grows

/-- What the search has added when it comes to a node. -/
theorem Enters.grows_before (hformed : g.Formed) (h : g.Enters path node s) :
    Grows path {} s := by
  induction h with
  | @first before after id hsplit hdone =>
    exact grows_starting hformed (show g.ids = [] ++ before ++ id :: after from hsplit)
  | @next path node s before after next henters hsplit hnew hdone ih =>
    have hlooking := henters.grows_looking hformed
      (show g.dependents node = [] ++ before ++ next :: after from hsplit)
    exact (ih.mono (List.subset_cons_self node path)).trans hlooking

/-- What the search adds after it has searched a node to the end. -/
theorem Enters.grows_after (hformed : g.Formed) (h : g.Enters path node s) :
    Grows path (g.visit (node :: path) node s) g.searched := by
  induction h with
  | @first before after id hsplit hdone =>
    have hplace : g.ids = (before ++ [id]) ++ after ++ [] := by simpa using hsplit
    have hrest := grows_starting hformed hplace
    rw [← List.append_nil (before ++ [id] ++ after), ← hplace, List.foldl_concat, start,
      if_neg hdone] at hrest
    rw [searched_eq]
    exact hrest
  | @next path node s before after next henters hsplit hnew hdone ih =>
    have hplace : g.dependents node = (before ++ [next]) ++ after ++ [] := by simpa using hsplit
    have hid : next ∈ g.ids := hformed.target_mem (leads_of_dependents hsplit)
    have hrest := henters.grows_looking hformed hplace
    rw [← List.append_nil (before ++ [next] ++ after), ← hplace, List.foldl_concat, look,
      if_neg hnew, if_neg hdone, if_pos hid] at hrest
    have hfinish := hrest.finish
    rw [← visit_eq] at hfinish
    exact (hfinish.trans ih).mono (List.subset_cons_self node path)

/-- The search comes to every node. -/
theorem exists_enters (hformed : g.Formed) (hnode : node ∈ g.ids) :
    ∃ path s, g.Enters path node s := by
  suffices h : ∀ before after, g.ids = before ++ after →
      ∀ w ∈ (before.foldl g.start {}).done, ∃ path s, g.Enters path w s from
    h g.ids [] (List.append_nil _).symm node ((consistent_searched hformed).2 hnode)
  intro before
  induction before using List.reverseRecOn with
  | nil => simp
  | append_singleton before id ih =>
    intro after hsplit w hw
    rw [List.append_assoc, List.singleton_append] at hsplit
    rw [List.foldl_concat, start] at hw
    split at hw
    · exact ih _ hsplit w hw
    · next hdone =>
      rcases ((Enters.first hsplit hdone).traces hformed).tracked w hw with hw | hw
      · exact ih _ hsplit w hw
      · exact hw.entered

/-! ## Which nodes are reported -/

/-- An edge to a node that is not among those that have been searched to the end. -/
def LeadsOutside (g : Graph) (done : List String) (a b : String) : Prop :=
  g.Leads a b ∧ b ∉ done

/-- A search that comes back to a node on a way outside of what was finished before reports a cycle
with the node. -/
theorem Enters.reports (hformed : g.Formed) (h : g.Enters path node s)
    (hway : TransGen (g.LeadsOutside s.done) node node) :
    ∃ c ∈ (g.visit (node :: path) node s).cycles, node ∈ c := by
  have hentered := h.entered hformed
  have htraces := h.traces hformed
  -- along the way all nodes are finished, until an edge leads back to the path
  have hfinished : ∀ b, ReflTransGen (g.LeadsOutside s.done) node b →
      (b ∈ (g.visit (node :: path) node s).done ∧ b ∉ s.done) ∨
        ∃ c ∈ (g.visit (node :: path) node s).cycles, node ∈ c := by
    intro b hb
    induction hb with
    | refl => exact .inl ⟨htraces.finished, hentered.unfinished⟩
    | @tail b x _ hbx ih =>
      rcases ih with ⟨hb, hnew⟩ | hreported
      · have htracked := (htraces.tracked b hb).resolve_left hnew
        rcases htracked.handled hbx.1 with ⟨hx, c, hc, hxc, hsub⟩ | ⟨hx, hdone⟩
        · refine .inr ⟨c, hc, ?_⟩
          by_cases hnode : node = x
          · exact hnode ▸ hxc
          · refine hsub ?_
            rw [List.takeWhile_cons, if_pos (bne_iff_ne.2 hnode)]
            exact List.mem_cons_self
        · exact .inl ⟨hdone, hbx.2⟩
      · exact .inr hreported
  obtain ⟨b, hb, hedge⟩ := TransGen.tail'_iff.1 hway
  rcases hfinished b hb with ⟨hdone, hnew⟩ | hreported
  · have htracked := (htraces.tracked b hdone).resolve_left hnew
    rcases htracked.handled hedge.1 with ⟨-, c, hc, hnode, -⟩ | ⟨hnode, -⟩
    · exact ⟨c, hc, hnode⟩
    · exact absurd List.mem_cons_self hnode
  · exact hreported

theorem Enters.reported_iff (hformed : g.Formed) (h : g.Enters path node s) :
    (∃ c ∈ g.cycles, node ∈ c) ↔ TransGen (g.LeadsOutside s.done) node node := by
  have hentered := h.entered hformed
  have htraces := h.traces hformed
  constructor
  · rintro ⟨c, hc, hnode⟩
    -- neither before the search came to the node nor after it left it can the cycle be closed
    have hvisit : c ∈ (g.visit (node :: path) node s).cycles := by
      refine ((h.grows_after hformed).fresh c hc).resolve_right fun hnew => ?_
      exact (hnew node hnode).1 htraces.finished
    have hnew : ∀ x ∈ c, x ∉ s.done := by
      rcases htraces.grows.fresh c hvisit with hold | hnew
      · rcases (h.grows_before hformed).fresh c hold with hc | hplaced
        · contradiction
        · exact ((hplaced node hnode).2.elim hentered.new hentered.unfinished).elim
      · exact fun x hx => (hnew x hx).1
    have hcycle := (consistent_searched hformed).1.cycles c hc
    refine transGen_of_closed hcycle.length hcycle.closed ?_ hnode
    exact hcycle.chain.imp_of_mem_imp fun x y _ hy hxy => ⟨hxy, hnew y hy⟩
  · intro hway
    obtain ⟨c, hc, hnode⟩ := h.reports hformed hway
    exact ⟨c, (h.grows_after hformed).cycles hc, hnode⟩

/-- In a graph that is built, the search for cycles comes to each node, and a reported cycle passes
the node exactly when a way leads from it back to it that avoids all nodes searched to the end before
the search came to it. -/
theorem reported_exact {nodes : List GraphNode} {edges : List GraphEdge}
    (h : (build nodes edges).run.value = .ok g) (hnode : node ∈ g.ids) :
    (∃ path s, g.Enters path node s) ∧
    ∀ path s, g.Enters path node s →
      ((∃ c ∈ g.cycles, node ∈ c) ↔ TransGen (g.LeadsOutside s.done) node node) :=
  ⟨exists_enters (formed_of_build h) hnode,
    fun _ _ henters => henters.reported_iff (formed_of_build h)⟩

/-- Two cycles with an edge in common, which the search comes to from the one that is shorter. -/
def detour : Graph where
  nodes := [⟨"A", .queue, .null⟩, ⟨"B", .queue, .null⟩, ⟨"C", .queue, .null⟩]
  edges := [⟨"A", "B", .triggers⟩, ⟨"A", "C", .triggers⟩, ⟨"B", "A", .triggers⟩,
    ⟨"C", "B", .triggers⟩]

theorem detour_build : (build detour.nodes detour.edges).run.value = .ok detour := rfl

theorem detour_cycles : detour.cycles = [["A", "B", "A"]] := by decide +kernel

/-- The only way from C back to it goes through B, with which the search was done by then. -/
theorem detour_avoids :
    (∃ path s, detour.Enters path "C" s) ∧
    ∀ path s, detour.Enters path "C" s → ¬ TransGen (detour.LeadsOutside s.done) "C" "C" := by
  obtain ⟨henters, hiff⟩ := reported_exact detour_build (by decide : "C" ∈ detour.ids)
  refine ⟨henters, fun path s h => mt (hiff path s h).2 ?_⟩
  rw [detour_cycles]
  decide

/-- A node on a cycle need not be on one that is reported. -/
theorem detour_misses : ¬ ∀ (nodes : List GraphNode) (edges : List GraphEdge) (g : Graph),
    (build nodes edges).run.value = .ok g →
    ∀ id ∈ g.ids, TransGen g.Leads id id → ∃ c ∈ g.cycles, id ∈ c := by
  intro h
  have hCB : detour.Leads "C" "B" := ⟨⟨"C", "B", .triggers⟩, by decide, rfl, rfl⟩
  have hBA : detour.Leads "B" "A" := ⟨⟨"B", "A", .triggers⟩, by decide, rfl, rfl⟩
  have hAC : detour.Leads "A" "C" := ⟨⟨"A", "C", .triggers⟩, by decide, rfl, rfl⟩
  obtain ⟨c, hc, hmem⟩ := h _ _ detour detour_build "C" (by decide)
    (((TransGen.single hCB).tail hBA).tail hAC)
  rw [detour_cycles, List.mem_singleton] at hc
  rw [hc] at hmem
  revert hmem
  decide

end LocalCloud.Graph
