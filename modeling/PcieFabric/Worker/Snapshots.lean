import PcieFabric.Coordinator.Authority
import PcieFabric.Persist.ReadBack
import PcieFabric.Worker.Worker

/-!
What a positive reply to a snapshot says.

* `Topology.Unnumbered`: the only node id in use is the one that every decoded
  node carries; `unnumbered_of_run` says that this holds in every run.
* `Coordinator.Shows`: every node and every path of a snapshot is stored under
  its id; `Coordinator.Takes` is the condition before the frame,
  `shows_iff_takes` that it decides.
* `AppliesAcknowledged`: when the call of the worker succeeds, the snapshot is
  applied; `appliesAcknowledged_iff` says when this holds.
-/

namespace PcieFabric

open Wire Machine Std

/-! ### The nodes of a run -/

/-- Every node stands under the id that a decoded node carries. -/
def Topology.Unnumbered (t : Topology) : Prop :=
  ∀ (id : PciNodeId) (n : Node), t.nodes[id]? = some n → id = default

namespace Coordinator

variable {t : Topology} {n : Node}

/-- What `add_node` keeps of a decoded node. -/
def keptNode (n : Node) : Node :=
  { id := default, bdf := n.bdf, kind := n.kind, generation := n.generation,
    provenance := n.provenance }

/-- A decoded node that is new is stored with its address. -/
lemma nodes_storeNode_of_none (h : t.Unnumbered) (hn : n.id = default)
    (hnone : t.nodes[(default : PciNodeId)]? = none) :
    (storeNode t n).nodes = t.nodes.insert default (keptNode n) := by
  have hcontains : t.nodes.contains (default : PciNodeId) = false := by
    rw [ExtTreeMap.contains_eq_isSome_getElem?, hnone]
    rfl
  -- no node is stored at all, so none is found at the address
  have hfind : t.findByBdf n.bdf = none := by
    cases hfind : t.findByBdf n.bdf with
    | none => rfl
    | some k =>
        obtain ⟨m, hm, -⟩ := Topology.mem_of_findByBdf hfind
        rw [h k m hm, hnone] at hm
        cases hm
  have hadd : storeNode t n = (Topology.attach
      { t with nodes := t.nodes.insert default (keptNode n) } default
        (n.parent.getD ⟨0⟩) none).2 := by
    rw [storeNode, hn, Topology.contains, hcontains, if_neg Bool.false_ne_true,
      Topology.addEndpoint, Topology.addNode, hfind]
    simp only [hcontains, Bool.false_eq_true, if_false, Topology.attachAdded]
    rfl
  rw [hadd]
  rcases Topology.attach_cases _ default (n.parent.getD ⟨0⟩) none with
    ⟨heq, -⟩ | ⟨c, p, hne, -, hp, -⟩
  · rw [heq]
  · -- the parent would have to be another node
    rw [ExtTreeMap.getElem?_insert, if_neg (mt LawfulEqCmp.compare_eq_iff_eq.mp hne)] at hp
    exact absurd (h _ p hp).symm hne

lemma storeNode_of_some (hn : n.id = default) {m : Node}
    (hm : t.nodes[(default : PciNodeId)]? = some m) : storeNode t n = t := by
  rw [storeNode_eq_iff, hn, Topology.contains, ExtTreeMap.contains_eq_isSome_getElem?, hm]
  rfl

/-- A decoded node leaves the topology without other ids. -/
lemma unnumbered_storeNode (h : t.Unnumbered) (hn : n.id = default) :
    (storeNode t n).Unnumbered := by
  cases hdefault : t.nodes[(default : PciNodeId)]? with
  | some m => rwa [storeNode_of_some hn hdefault]
  | none =>
      intro id m hm
      rw [nodes_storeNode_of_none h hn hdefault, ExtTreeMap.getElem?_insert] at hm
      split at hm
      next heq => exact (LawfulEqCmp.compare_eq_iff_eq.mp heq).symm
      next => exact h id m hm

lemma unnumbered_storeNodes {ns : List Node} (h : t.Unnumbered)
    (hns : ∀ n ∈ ns, n.id = default) : (ns.foldl storeNode t).Unnumbered := by
  induction ns generalizing t with
  | nil => exact h
  | cons n ns ih =>
      obtain ⟨hn, hns⟩ := List.forall_mem_cons.mp hns
      exact ih (unnumbered_storeNode h hn) hns

/-- The address under the id of the decoded nodes: the stored one, or that of
the new node. -/
lemma bdf_storeNode (h : t.Unnumbered) (hn : n.id = default) :
    ∃ m, (storeNode t n).nodes[(default : PciNodeId)]? = some m ∧
      m.bdf = ((t.nodes[(default : PciNodeId)]?).map Node.bdf).getD n.bdf := by
  cases hdefault : t.nodes[(default : PciNodeId)]? with
  | some m => exact ⟨m, by rw [storeNode_of_some hn hdefault, hdefault], rfl⟩
  | none =>
      refine ⟨keptNode n, ?_, rfl⟩
      rw [nodes_storeNode_of_none h hn hdefault, ExtTreeMap.getElem?_insert_self]

end Coordinator

/-- The nodes of a decoded snapshot carry the default id and a valid address. -/
lemma Persist.nodes_of_deserialize {data : List UInt8} {beyond : Nat → UInt8} {s : Snapshot}
    (h : Persist.deserialize data beyond = .ok s) :
    ∀ n ∈ s.nodes, n.id = default ∧ n.bdf.valid = true := by
  obtain ⟨i, -, hacc, -, rfl⟩ := Persist.deserialize_ok_iff.mp h
  intro n hn
  obtain ⟨j, hj, rfl⟩ := List.mem_map.mp hn
  obtain ⟨b, hb⟩ := (hacc.nodes_accepted j hj).bdf_parses
  refine ⟨rfl, ?_⟩
  show j.address.valid = true
  rw [Persist.NodeImage.address_of_parse hb]
  exact Bdf.valid_of_parse hb

namespace Server

/-- No event brings another node id into use. -/
lemma unnumbered_step {srv : Server} (h : srv.coordinator.topology.Unnumbered) (e : ServerEvent) :
    (srv.step e).coordinator.topology.Unnumbered := by
  cases e with
  | advanceEpoch | revalidateAll => exact h
  | frame conn f beyond =>
      show (srv.coordinator.handleFrame (srv.conns conn) f beyond).1.topology.Unnumbered
      by_cases hst : ∃ wb snap, Coordinator.Stores (srv.conns conn) f beyond wb snap
      · obtain ⟨wb, snap, hs⟩ := hst
        rw [Coordinator.handleFrame_of_stores hs]
        exact Coordinator.unnumbered_storeNodes h fun n hn =>
          (Persist.nodes_of_deserialize hs.2.2.2 n hn).1
      · push Not at hst
        rw [Coordinator.topology_handleFrame hst]
        exact h

/-- In every run the only node id in use is the default one. -/
lemma unnumbered_of_run (events : List ServerEvent) :
    (run step {} events).coordinator.topology.Unnumbered :=
  run_invariant step (I := fun srv => srv.coordinator.topology.Unnumbered)
    (fun _ e h => unnumbered_step h e) (fun id n h => by simp at h) events

end Server

/-! ### What is stored of a snapshot -/

/-- The two paths have the same endpoints, generation, epoch and boot. -/
structure Path.SameIdentity (p q : Path) : Prop where
  source : p.source = q.source
  destination : p.destination = q.destination
  generation : p.generation = q.generation
  epoch : p.epoch = q.epoch
  boot : p.boot = q.boot

namespace Coordinator

/-- The update is applied: a node stands under the id of every node of the
snapshot with its address, and a path under the id of every path with its
endpoints, generation, epoch and boot. -/
structure Shows (c : Coordinator) (snap : Snapshot) : Prop where
  nodes : ∀ n ∈ snap.nodes, ∃ m, c.topology.nodes[n.id]? = some m ∧ m.bdf = n.bdf
  paths : ∀ p ∈ snap.paths, ∃ q, c.paths[p.id]? = some q ∧ q.SameIdentity p

/-- The nodes carry the id that decoded nodes have. Their address is the one that
is stored under it, or valid when none is. The paths have the current epoch and
the boot `wb`, or are stored already. -/
structure Takes (c : Coordinator) (wb : WorkerBootId) (snap : Snapshot) : Prop where
  ids : ∀ n ∈ snap.nodes, n.id = default
  known : ∀ n ∈ snap.nodes, ∀ m, c.topology.nodes[(default : PciNodeId)]? = some m → m.bdf = n.bdf
  fresh : ∀ n ∈ snap.nodes, c.topology.nodes[(default : PciNodeId)]? = none → n.bdf.valid = true
  paths : ∀ p ∈ snap.paths, p.authorityMatches c.epoch wb = true ∨
    ∃ q, c.paths[p.id]? = some q ∧ q.SameIdentity p

section

variable {c : Coordinator} {wb : WorkerBootId}

/-- One node that is decoded as `d` is shown exactly when it has the default id
and the address that is stored, or that `d` brings. -/
lemma shows_node_iff {n d : Node} (h : c.topology.Unnumbered) (hd : d.id = default) :
    (∃ m, (storeNode c.topology d).nodes[n.id]? = some m ∧ m.bdf = n.bdf) ↔
      n.id = default ∧
        ((c.topology.nodes[(default : PciNodeId)]?).map Node.bdf).getD d.bdf = n.bdf := by
  obtain ⟨m₀, hm₀, hbdf⟩ := bdf_storeNode h hd
  constructor
  · rintro ⟨m, hm, hmb⟩
    have hid : n.id = default := unnumbered_storeNode h hd _ _ hm
    rw [hid, hm₀] at hm
    obtain rfl := Option.some.inj hm
    exact ⟨hid, hbdf.symm.trans hmb⟩
  · rintro ⟨hid, hn⟩
    exact ⟨m₀, by rw [hid]; exact hm₀, hbdf.trans hn⟩

/-- The address under the default id is that of `n`: it is stored, or it comes
back from the encoding. -/
lemma address_iff {n : Node} {o : Option Node}
    (hvalid : (Persist.NodeImage.ofNode n).toNode.bdf.valid = true) :
    (o.map Node.bdf).getD (Persist.NodeImage.ofNode n).toNode.bdf = n.bdf ↔
      (∀ m, o = some m → m.bdf = n.bdf) ∧ (o = none → n.bdf.valid = true) := by
  cases o with
  | some m => simp
  | none =>
      simp only [Option.map_none, Option.getD_none, reduceCtorEq, false_imp_iff, implies_true,
        true_and, forall_const]
      constructor
      · intro heq
        rwa [heq] at hvalid
      · intro hn
        exact Persist.NodeImage.address_of_parse (Bdf.parse_canonical hn)

/-- A path of a snapshot with distinct ids is shown when it has the right
authority or is stored already. -/
lemma shows_path_iff {ps : List Path} (hnodup : (ps.map Path.id).Nodup) {p' p : Path}
    (hp' : p' ∈ ps) (hid : p'.id = p.id) (hsame : p'.SameIdentity p) :
    (∃ q, (ps.foldl (storePath c.epoch wb) c.paths)[p.id]? = some q ∧ q.SameIdentity p) ↔
      p.authorityMatches c.epoch wb = true ∨ ∃ q, c.paths[p.id]? = some q ∧ q.SameIdentity p := by
  have hmatch : p'.authorityMatches c.epoch wb = p.authorityMatches c.epoch wb := by
    rw [Path.authorityMatches, Path.authorityMatches, hsame.epoch, hsame.boot]
  by_cases hauth : p.authorityMatches c.epoch wb = true
  · have hget := getElem?_storePaths hnodup hp' (hmatch.trans hauth) c.paths
    rw [hid] at hget
    exact iff_of_true ⟨p', hget, hsame⟩ (.inl hauth)
  · rw [or_iff_right hauth]
    rcases getElem?_storePaths_cases c.epoch wb ps c.paths p.id with
      hkeep | ⟨q, hq, hqauth, hqid, -⟩
    · rw [hkeep]
    · -- only `p'` has the id, and its authority is wrong
      obtain rfl := List.inj_on_of_nodup_map hnodup hq hp' (hqid.trans hid.symm)
      exact absurd (hmatch.symm.trans hqauth) hauth

end

/-- **What is stored of a snapshot** that decodes: all of it, exactly when the
coordinator takes it. -/
theorem shows_iff_takes {c : Coordinator} {wb : WorkerBootId} {snap snap' : Snapshot}
    {data : List UInt8} {beyond : Nat → UInt8} (h : c.topology.Unnumbered)
    (hdec : Persist.deserialize data beyond = .ok snap')
    (hsnap : snap' = (Persist.SnapshotImage.ofSnapshot snap).toSnapshot) :
    Shows { c with
      topology := snap'.nodes.foldl storeNode c.topology
      paths := snap'.paths.foldl (storePath c.epoch wb) c.paths } snap ↔ c.Takes wb snap := by
  have hnodes : snap'.nodes = snap.nodes.map fun n => (Persist.NodeImage.ofNode n).toNode := by
    rw [hsnap]
    exact List.map_map ..
  have hpaths : snap'.paths = snap.paths.map fun p => (Persist.PathImage.ofPath p).toPath := by
    rw [hsnap]
    exact List.map_map ..
  have hnode : ∀ n ∈ snap.nodes,
      (∃ m, (snap'.nodes.foldl storeNode c.topology).nodes[n.id]? = some m ∧ m.bdf = n.bdf) ↔
        n.id = default ∧
          (∀ m, c.topology.nodes[(default : PciNodeId)]? = some m → m.bdf = n.bdf) ∧
          (c.topology.nodes[(default : PciNodeId)]? = none → n.bdf.valid = true) := by
    intro n hn
    have hlen := Persist.nodes_length_le_one hdec
    have hmem : (Persist.NodeImage.ofNode n).toNode ∈ snap'.nodes := by
      rw [hnodes]
      exact List.mem_map_of_mem hn
    obtain ⟨hid, hvalid⟩ := Persist.nodes_of_deserialize hdec _ hmem
    have hone : snap'.nodes = [(Persist.NodeImage.ofNode n).toNode] := by
      obtain ⟨d, hd⟩ := List.length_eq_one_iff.mp
        (Nat.le_antisymm hlen (List.length_pos_of_mem hmem))
      rw [hd, List.mem_singleton] at hmem
      rw [hd, hmem]
    rw [hone, List.foldl_cons, List.foldl_nil, shows_node_iff h hid, address_iff hvalid]
  have hpath : ∀ p ∈ snap.paths, (∃ q, (snap'.paths.foldl (storePath c.epoch wb) c.paths)[p.id]? =
      some q ∧ q.SameIdentity p) ↔
        p.authorityMatches c.epoch wb = true ∨ ∃ q, c.paths[p.id]? = some q ∧ q.SameIdentity p := by
    intro p hp
    have hmem : (Persist.PathImage.ofPath p).toPath ∈ snap'.paths := by
      rw [hpaths]
      exact List.mem_map_of_mem hp
    exact shows_path_iff (Persist.pathIds_nodup hdec) hmem rfl ⟨rfl, rfl, rfl, rfl, rfl⟩
  constructor
  · rintro ⟨hns, hps⟩
    exact ⟨fun n hn => ((hnode n hn).mp (hns n hn)).1, fun n hn => ((hnode n hn).mp (hns n hn)).2.1,
      fun n hn => ((hnode n hn).mp (hns n hn)).2.2, fun p hp => (hpath p hp).mp (hps p hp)⟩
  · rintro ⟨hids, hknown, hfresh, hps⟩
    exact ⟨fun n hn => (hnode n hn).mpr ⟨hids n hn, hknown n hn, hfresh n hn⟩,
      fun p hp => (hpath p hp).mpr (hps p hp)⟩

end Coordinator

/-! ### The call of a worker -/

namespace Server

/-- The call sends the snapshot on the connection. Whatever the pieces in which
the answer arrives: if the call succeeds, the coordinator shows the snapshot when
it has handled the frame. -/
def AppliesAcknowledged (srv : Server) (conn : Nat) (w : Worker) (call : WorkerCall)
    (snap : Snapshot) (beyond : Nat → UInt8) : Prop :=
  ∀ f, w.request call = .ok f → ∀ (s : TcpSocket) (beyond' : Nat → UInt8),
    s.Holds (encodeAll (writtenFor (srv.serve conn (encode f) beyond).2.2)) .closed →
    (w.call call s beyond').1.isOk = true →
    (srv.serve conn (encode f) beyond).1.coordinator.Shows snap

/-- The snapshot passes the checks of the frame and of the decoder. -/
def Readable (snap : Snapshot) (beyond : Nat → UInt8) : Prop :=
  ∃ body, Persist.serialize snap = .ok body ∧ body.length ≤ kMaxPayload ∧
    (Persist.deserialize body beyond).isOk = true

variable {srv : Server} {conn : Nat} {w : Worker} {call : WorkerCall} {snap : Snapshot}
  {beyond : Nat → UInt8} {f : Frame}

/-- A readable snapshot from a registered worker is handled and acknowledged. -/
lemma serve_readable (hkind : f.IsSnapshot) (hbody : Persist.serialize snap = .ok f.payload)
    (hconn : srv.conns conn = ⟨some w.id, some w.boot⟩) (hread : Readable snap beyond) :
    ∃ snap', Persist.deserialize f.payload beyond = .ok snap' ∧
      snap' = (Persist.SnapshotImage.ofSnapshot snap).toSnapshot ∧
      (srv.serve conn (encode f) beyond).1.coordinator = { srv.coordinator with
        topology := snap'.nodes.foldl Coordinator.storeNode srv.coordinator.topology
        paths := snap'.paths.foldl (Coordinator.storePath srv.coordinator.epoch w.boot)
          srv.coordinator.paths } ∧
      writtenFor (srv.serve conn (encode f) beyond).2.2 = [Ack.frame ⟨srv.coordinator.epoch.value,
        srv.coordinator.seq, true, ascii "snapshot accepted"⟩] := by
  obtain ⟨body, hbody', hlen, hok⟩ := hread
  obtain rfl : body = f.payload := Except.ok.inj (hbody'.symm.trans hbody)
  cases hdec : Persist.deserialize f.payload beyond with
  | error e => rw [hdec] at hok; cases hok
  | ok snap' =>
      have hlegal : f.Legal := by
        refine ⟨?_, ?_, hlen⟩ <;> rcases hkind with h | h <;> rw [h] <;> decide
      have hst : Coordinator.Stores (srv.conns conn) f beyond w.boot snap' :=
        ⟨hkind, by rw [hconn]; rfl, by rw [hconn], hdec⟩
      have hnext := nextFrame_encode hlegal .closed []
      rw [List.append_nil] at hnext
      refine ⟨snap', rfl, Persist.eq_of_deserialize_serialize hbody
        (hlen.trans_lt (by decide)) hdec, ?_, ?_⟩
      · rw [serve, hnext]
        show (srv.handle conn f beyond).1 = _
        rw [handle, Coordinator.handleFrame_of_stores hst]
      · rw [serve, hnext]
        show (srv.handle conn f beyond).2.2.written = _
        rw [handle, Coordinator.handleFrame_of_stores hst]
        rfl

/-- A snapshot that is not readable is not answered. -/
lemma serve_unreadable (hkind : f.IsSnapshot) (hbody : Persist.serialize snap = .ok f.payload)
    (hsize : f.payload.length < 2 ^ 64) (hread : ¬ Readable snap beyond) :
    writtenFor (srv.serve conn (encode f) beyond).2.2 = [] := by
  rw [← List.append_nil (encode f)]
  by_cases hlen : f.payload.length ≤ kMaxPayload
  · have hlegal : f.Legal := by
      refine ⟨?_, ?_, hlen⟩ <;> rcases hkind with h | h <;> rw [h] <;> decide
    rw [serve, nextFrame_encode hlegal]
    show (srv.handle conn f beyond).2.2.written = []
    rw [handle, Coordinator.handleFrame_snapshot hkind]
    refine Answer.written_of_not_isAck fun hack => hread ?_
    exact ⟨f.payload, hbody, hlen, ((Coordinator.isAck_handleSnapshot _).mp hack).2.2⟩
  · have hover := nextFrame_oversize (Nat.lt_of_not_le hlen) hsize .closed []
    rw [serve]
    rcases hnext : nextFrame .closed (encode f ++ []) with ⟨_ | g, rest⟩
    · rfl
    · rw [hnext] at hover
      cases hover

/-- A snapshot call succeeds when the loop ends with a positive reply. -/
lemma isOk_call_iff (hsnap : call.snapshot = some snap) (hreq : w.request call = .ok f)
    (s : TcpSocket) (beyond' : Nat → UInt8) : (w.call call s beyond').1.isOk = true ↔
      ∃ a, (awaitAck beyond' kAwaitRounds s).1 = .ok a ∧ a.ok = true := by
  rw [Worker.call, hreq]
  dsimp only
  cases (awaitAck beyond' kAwaitRounds s).1 with
  | error e => simp [Worker.finish]
  | ok a =>
      cases call with
      | sendInventory | sendPathSnapshot =>
          cases hok : a.ok <;> simp [Worker.finish, hok, Result.err]
      | registerSelf | sendMeasurement | reserve | release | heartbeat | revalidate => cases hsnap

section

variable {events : List ServerEvent}

/-- What is acknowledged is taken. -/
lemma takes_of_appliesAcknowledged (hsnap : call.snapshot = some snap) (hopen : w.connected = true)
    (hconn : (run step {} events).conns conn = ⟨some w.id, some w.boot⟩)
    (happlies : AppliesAcknowledged (run step {} events) conn w call snap beyond)
    (hread : Readable snap beyond) : (run step {} events).coordinator.Takes w.boot snap := by
  obtain ⟨f, hframe, hkind, hbody⟩ := Worker.frame_of_snapshot (w := w) hsnap
  have hreq : w.request call = .ok f := Worker.request_ok_iff.mpr ⟨hopen, hframe⟩
  obtain ⟨snap', hdec, hof, hafter, hwritten⟩ := serve_readable hkind hbody hconn hread
  have hshort : Ack.Short ⟨(run step {} events).coordinator.epoch.value,
      (run step {} events).coordinator.seq, true, ascii "snapshot accepted"⟩ :=
    (by decide : (ascii "snapshot accepted").length ≤ Reader.stringCap)
  obtain ⟨s, hholds⟩ := TcpSocket.exists_holds
    (encodeAll (writtenFor ((run step {} events).serve conn (encode f) beyond).2.2)) .closed
  have hack := awaitAck_of_ack hshort (hwritten ▸ hholds) fun _ => 0
  have hshows := happlies f hreq s (fun _ => 0) hholds
    ((isOk_call_iff hsnap hreq _ _).mpr ⟨_, hack, rfl⟩)
  rw [hafter] at hshows
  exact (Coordinator.shows_iff_takes (unnumbered_of_run events) hdec hof).mp hshows

/-- What is taken is applied, and what is not readable is not acknowledged. -/
lemma appliesAcknowledged_of_takes (hsnap : call.snapshot = some snap)
    (hconn : (run step {} events).conns conn = ⟨some w.id, some w.boot⟩)
    (hsize : ∀ body, Persist.serialize snap = .ok body → body.length < 2 ^ 64)
    (htakes : Readable snap beyond → (run step {} events).coordinator.Takes w.boot snap) :
    AppliesAcknowledged (run step {} events) conn w call snap beyond := by
  intro f hreq s beyond' hholds hok
  obtain ⟨g, hg, hkind, hbody⟩ := Worker.frame_of_snapshot (w := w) hsnap
  obtain rfl : g = f := Except.ok.inj (hg.symm.trans (Worker.request_ok_iff.mp hreq).2)
  by_cases hread : Readable snap beyond
  · obtain ⟨snap', hdec, hof, hafter, -⟩ := serve_readable hkind hbody hconn hread
    rw [hafter]
    exact (Coordinator.shows_iff_takes (unnumbered_of_run events) hdec hof).mpr (htakes hread)
  · rw [serve_unreadable hkind hbody (hsize _ hbody) hread] at hholds
    obtain ⟨e, he⟩ := awaitAck_of_silence hholds beyond'
    obtain ⟨a, ha, -⟩ := (isOk_call_iff hsnap hreq _ _).mp hok
    rw [he] at ha
    cases ha

end

/-- **What a positive reply to a snapshot says**: in every run, the snapshot that
a registered worker sends is applied whenever the call succeeds, if and only if
the coordinator takes it whenever it is readable. -/
theorem appliesAcknowledged_iff (events : List ServerEvent) (conn : Nat) (w : Worker)
    (call : WorkerCall) (snap : Snapshot) (beyond : Nat → UInt8)
    (hsnap : call.snapshot = some snap) (hopen : w.connected = true)
    (hconn : (run step {} events).conns conn = ⟨some w.id, some w.boot⟩)
    (hsize : ∀ body, Persist.serialize snap = .ok body → body.length < 2 ^ 64) :
    AppliesAcknowledged (run step {} events) conn w call snap beyond ↔
      (Readable snap beyond → (run step {} events).coordinator.Takes w.boot snap) :=
  ⟨takes_of_appliesAcknowledged hsnap hopen hconn, appliesAcknowledged_of_takes hsnap hconn hsize⟩

/-- Worker 1 with boot 100, connected. -/
def connectedWorker : Worker := { id := ⟨1⟩, boot := ⟨100⟩, hostGen := ⟨1⟩, connected := true }

/-- The registration of this worker on connection 0. -/
def registration : List ServerEvent := [send 0 .msgRegister (writeRegister ⟨1, 100, 1⟩)]

/-- A snapshot of one root complex, under this id. -/
def rootInventory (id : PciNodeId) : Snapshot := { nodes := [Persist.rootNode id 1] }

lemma readable_rootInventory : Readable (rootInventory ⟨50⟩) fun _ => 0 :=
  ⟨_, rfl, by decide +kernel, by decide +kernel⟩

/-- A root complex without an id is stored. -/
theorem appliesAcknowledged_unnumbered : AppliesAcknowledged (run step {} registration) 0
    connectedWorker (.sendInventory (rootInventory ⟨0⟩)) (rootInventory ⟨0⟩) fun _ => 0 :=
  (appliesAcknowledged_iff registration 0 connectedWorker (.sendInventory (rootInventory ⟨0⟩))
    (rootInventory ⟨0⟩) (fun _ => 0) rfl rfl (by decide +kernel) (by
      intro body hbody
      rw [← Except.ok.inj hbody]
      decide +kernel)).mpr fun _ => {
    ids := by simp [rootInventory, Persist.rootNode]; rfl
    known := by
      intro n _ m hm
      have hnone : (run step {} registration).coordinator.topology.nodes[(default : PciNodeId)]? =
        none := by decide +kernel
      rw [hnone] at hm
      cases hm
    fresh := by simp [rootInventory, Persist.rootNode]; intro; rfl
    paths := fun p hp => by cases hp }

/-- A root complex with the id 50 is acknowledged, and stored under the id 0. -/
theorem acknowledged_without_id : ¬ AppliesAcknowledged (run step {} registration) 0
    connectedWorker (.sendInventory (rootInventory ⟨50⟩)) (rootInventory ⟨50⟩) fun _ => 0 := by
  intro happlies
  have htakes := takes_of_appliesAcknowledged rfl rfl (by decide +kernel) happlies
    readable_rootInventory
  exact absurd (htakes.ids _ (List.mem_singleton.mpr rfl)) (by decide)

end Server

end PcieFabric
