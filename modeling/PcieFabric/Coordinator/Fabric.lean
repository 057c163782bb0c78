import PcieFabric.Lib.Cell
import PcieFabric.Worker.Snapshots

/-!
What the coordinator knows of the fabric: the paths and the hierarchy that the snapshots of the
workers bring (`Coordinator::handle_frame`, `Coordinator::revalidate_all`).

* `StoresPath`: an event stores a path under an id. `path_table`: under each id stands the
  path that was stored last, to be revalidated exactly if `revalidate_all` was called since.
* `BringsNode`: an event brings a node. `hierarchy_of_run`: the hierarchy is the first node
  that was brought, for good.
-/

namespace PcieFabric

open Wire Machine Std

namespace Server

variable {srv : Server} {e : ServerEvent} {id : PathId}

/-! ### Paths -/

/-- The event stores the path under the id: it delivers the path, in a snapshot on a registered
connection with its boot and in the current epoch. -/
def StoresPath (id : PathId) (srv : Server) (e : ServerEvent) (p : Path) : Prop :=
  p.id = id ∧ srv.Delivers e p

/-- An event that stores nothing under the id revalidates what stands there, or leaves it. -/
lemma getElem?_paths_of_not_storesPath (h : ∀ p, ¬ StoresPath id srv e p) :
    (e = .revalidateAll →
        (srv.step e).coordinator.paths[id]? = srv.coordinator.paths[id]?.map Path.revalidate) ∧
      (e ≠ .revalidateAll →
        (srv.step e).coordinator.paths[id]? = srv.coordinator.paths[id]?) := by
  cases e with
  | advanceEpoch => exact ⟨fun heq => (nomatch heq), fun _ => rfl⟩
  | revalidateAll => exact ⟨fun _ => ExtTreeMap.getElem?_map, fun hne => absurd rfl hne⟩
  | frame conn f beyond =>
      refine ⟨fun heq => (nomatch heq), fun _ => ?_⟩
      rcases srv.coordinator.getElem?_paths_handleFrame (srv.conns conn) f beyond id with
        hkeep | ⟨wb, snap, p, hst, hp, hauth, hid, -⟩
      · exact hkeep
      · exact absurd ⟨hid, conn, f, beyond, wb, snap, rfl, hst, hp, hauth⟩ (h p)

/-- The entry of a path id is written by the snapshots and marked by `revalidate_all`. -/
lemma markedCell_paths (id : PathId) :
    MarkedCell step (fun _ => True) (fun srv => srv.coordinator.paths[id]?) (StoresPath id)
      (fun _ e => e = .revalidateAll) Path.revalidate where
  invariant _ _ _ := trivial
  written srv e p hstores := by
    obtain ⟨rfl, hdelivers⟩ := hstores
    exact getElem?_of_delivers hdelivers
  marked _ _ _ hnone hall := (getElem?_paths_of_not_storesPath hnone).1 hall
  kept _ _ _ hnone hall := (getElem?_paths_of_not_storesPath hnone).2 hall
  idem := Path.revalidate_revalidate

/-- What the table says of a path id. It has an entry exactly if a path was stored under it,
and the entry is the last one, to be revalidated if `revalidate_all` was called since. -/
structure PathsOf (events : List ServerEvent) (id : PathId) : Prop where
  stored : (run step {} events).coordinator.paths[id]? ≠ none ↔
    Writes step (StoresPath id) {} events
  last : ∀ pre e post p, events = pre ++ e :: post → StoresPath id (run step {} pre) e p →
    ¬ Writes step (StoresPath id) (run step {} (pre ++ [e])) post →
    (.revalidateAll ∈ post →
        (run step {} events).coordinator.paths[id]? = some p.revalidate) ∧
      (.revalidateAll ∉ post → (run step {} events).coordinator.paths[id]? = some p)

/-- **The table of paths, exactly.** Nothing but another path with current authority replaces an
entry, and nothing removes one: neither a new epoch nor a new registration. -/
theorem path_table (events : List ServerEvent) (id : PathId) : PathsOf events id := by
  have hcell := markedCell_paths id
  refine ⟨hcell.obs_run_ne_none_iff trivial ExtTreeMap.getElem?_empty, ?_⟩
  rintro pre e post p rfl hstores hlast
  have hrun := hcell.obs_run_of_write (s := {}) trivial hstores hlast
  rwa [someStep_iff_exists_mem, exists_eq_right] at hrun

/-! ### The hierarchy -/

/-- The event brings the node: a snapshot on a registered connection holds it, and nothing but
its address, its kind, its generation and its provenance is kept of it. -/
def BringsNode (srv : Server) (e : ServerEvent) (n : Node) : Prop :=
  ∃ conn f beyond wb snap d, e = .frame conn f beyond ∧
    Coordinator.Stores (srv.conns conn) f beyond wb snap ∧ snap.nodes = [d] ∧
    n = Coordinator.keptNode d

/-- The node that an event brings is offered to the hierarchy. -/
lemma topology_of_bringsNode {n : Node} (h : BringsNode srv e n) :
    ∃ d, d.id = default ∧ n = Coordinator.keptNode d ∧
      (srv.step e).coordinator.topology = Coordinator.storeNode srv.coordinator.topology d := by
  obtain ⟨conn, f, beyond, wb, snap, d, rfl, hst, hnodes, rfl⟩ := h
  have hid := (Persist.nodes_of_deserialize hst.2.2.2 d (by rw [hnodes]; simp)).1
  refine ⟨d, hid, rfl, ?_⟩
  show (srv.coordinator.handleFrame (srv.conns conn) f beyond).1.topology = _
  rw [Coordinator.handleFrame_of_stores hst, hnodes]
  rfl

/-- An event that brings no node leaves the hierarchy. -/
lemma topology_of_not_bringsNode (h : ∀ n, ¬ BringsNode srv e n) :
    (srv.step e).coordinator.topology = srv.coordinator.topology := by
  cases e with
  | advanceEpoch | revalidateAll => rfl
  | frame conn f beyond =>
      show (srv.coordinator.handleFrame (srv.conns conn) f beyond).1.topology = _
      by_cases hst : ∃ wb snap, Coordinator.Stores (srv.conns conn) f beyond wb snap
      · obtain ⟨wb, snap, hs⟩ := hst
        rw [Coordinator.handleFrame_of_stores hs]
        -- a snapshot that decodes holds at most one node
        have hlen := Persist.nodes_length_le_one hs.2.2.2
        match hnodes : snap.nodes with
        | [] => rfl
        | [d] => exact absurd ⟨conn, f, beyond, wb, snap, d, rfl, hs, hnodes, rfl⟩ (h _)
        | d :: d' :: rest =>
            rw [hnodes, List.length_cons, List.length_cons] at hlen
            omega
      · push Not at hst
        exact Coordinator.topology_handleFrame hst

/-- The node of the hierarchy is written once. -/
lemma onceCell_hierarchy :
    OnceCell step (fun srv => srv.coordinator.topology.Unnumbered)
      (fun srv => srv.coordinator.topology.nodes[(default : PciNodeId)]?) BringsNode where
  invariant _ e hunnumbered := unnumbered_step hunnumbered e
  written srv e n hunnumbered hnone hbrings := by
    obtain ⟨d, hid, rfl, htopology⟩ := topology_of_bringsNode hbrings
    rw [htopology, Coordinator.nodes_storeNode_of_none hunnumbered hid hnone]
    exact ExtTreeMap.getElem?_insert_self
  held srv e n _ hheld := by
    by_cases hbrings : ∃ n, BringsNode srv e n
    · obtain ⟨n', hbrings⟩ := hbrings
      obtain ⟨d, hid, -, htopology⟩ := topology_of_bringsNode hbrings
      rw [htopology, Coordinator.storeNode_of_some hid hheld, hheld]
    · rw [topology_of_not_bringsNode (not_exists.mp hbrings), hheld]
  empty srv e _ hnone hbrings := by
    rw [topology_of_not_bringsNode hbrings, hnone]

/-- What the hierarchy of a coordinator is: empty, or the one node that a snapshot brought
first. -/
structure HierarchyOf (events : List ServerEvent) : Prop where
  only : ∀ (k : PciNodeId) n, (run step {} events).coordinator.topology.nodes[k]? = some n →
    k = default
  first : ∀ n, (run step {} events).coordinator.topology.nodes[(default : PciNodeId)]? = some n ↔
    FirstWrite step BringsNode {} events n
  empty : (run step {} events).coordinator.topology.nodes[(default : PciNodeId)]? = none ↔
    ¬ Writes step BringsNode {} events

/-- **The hierarchy, exactly.** All that the workers report of their hierarchies is the first
node that one of them sends, without its links: the ids of the nodes are lost on the way. -/
theorem hierarchy_of_run (events : List ServerEvent) : HierarchyOf events := by
  have hrun := onceCell_hierarchy.obs_run (unnumbered_of_run []) ExtTreeMap.getElem?_empty events
  exact ⟨unnumbered_of_run events, hrun.1, hrun.2⟩

end Server

end PcieFabric
