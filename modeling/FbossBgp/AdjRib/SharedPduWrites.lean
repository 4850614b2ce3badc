import FbossBgp.AdjRib.GroupPdu

/-! The send loops of the peers of an update group that share one serialized PDU. The serializer writes a
peer's nexthop into the shared bytes, and the write to its socket reads them when it hands them to the kernel,
in one piece or in several, while the loops of other peers run. -/

namespace FbossBgp.AdjRib

open BgpLib (IPAddress Bytes BgpAttributes UpdateMessage UpdateDescriptor serializeUpdateAndCreateDescriptor)
open Overlay Transition List

/-- The shared bytes, the peers whose loop has serialized the message, and what has left on each socket. -/
structure PduWrites (P : Type) where
  storage : List Bytes
  serialized : P → Bool
  sent : P → Bytes

inductive PduAction (P : Type) where
  /-- `sendSocketLoop` takes the descriptor from the queue and serializes it. -/
  | serialize (peer : P)
  /-- The socket hands the next bytes of the write to the kernel. -/
  | handOver (peer : P) (count : Nat)
  deriving DecidableEq

section

variable {P : Type} [DecidableEq P] (descriptor : UpdateDescriptor) (nexthop : P → IPAddress) (pdu : List Bytes)

namespace PduWrites

variable (s : PduWrites P)

def Enabled : PduAction P → Prop
  | .serialize peer => s.serialized peer = false
  | .handOver peer _ => s.serialized peer = true

instance (s : PduWrites P) (action : PduAction P) : Decidable (s.Enabled action) := by
  cases action <;> dsimp only [Enabled] <;> infer_instance

def exec : PduAction P → PduWrites P
  | .serialize peer =>
    { s with
      storage := (peerDescriptor descriptor (nexthop peer)).serialize s.storage
      serialized := Function.update s.serialized peer true }
  | .handOver peer count =>
    { s with
      sent := Function.update s.sent peer
        (s.sent peer ++ (s.storage.flatten.drop (s.sent peer).length).take count) }

theorem sent_exec_handOver (peer other : P) (count : Nat) :
    (s.exec descriptor nexthop (.handOver peer count)).sent other =
      if other = peer then s.sent peer ++ (s.storage.flatten.drop (s.sent peer).length).take count else s.sent other :=
  Function.update_apply ..

def Writing (peer : P) : Prop :=
  s.serialized peer = true ∧ (s.sent peer).length < s.storage.flatten.length

instance (s : PduWrites P) (peer : P) : Decidable (s.Writing peer) := inferInstanceAs (Decidable (_ ∧ _))

/-- What has left on each socket begins the message with the nexthop of its peer. -/
def SendsOwn (key : UpdateGroupKey) (update : BgpLib.BgpUpdate2) (s : PduWrites P) : Prop :=
  ∀ peer, ∃ buffers, PeerBytes key update descriptor (nexthop peer) buffers ∧ s.sent peer <+: buffers.flatten

end PduWrites

/-- All interleavings of the loops, from the PDU as it was serialized. -/
def pduSystem : System (PduWrites P) (PduAction P) where
  init := ⟨pdu, fun _ => false, fun _ => []⟩
  enabled := PduWrites.Enabled
  exec := PduWrites.exec descriptor nexthop

/-- The interleavings in which a peer serializes only while no peer with another nexthop is writing. -/
def exclusiveSystem : System (PduWrites P) (PduAction P) where
  init := (pduSystem descriptor nexthop pdu).init
  enabled s action := s.Enabled action ∧
    ∀ peer, action = .serialize peer → ∀ other, s.Writing other → nexthop other = nexthop peer
  exec := PduWrites.exec descriptor nexthop

instance [Fintype P] (pdu : List Bytes) (s : PduWrites P) (action : PduAction P) :
    Decidable ((exclusiveSystem descriptor nexthop pdu).enabled s action) :=
  inferInstanceAs (Decidable (s.Enabled action ∧
    ∀ peer, action = .serialize peer → ∀ other, s.Writing other → nexthop other = nexthop peer))

end

section

variable {P : Type} [DecidableEq P] {key : UpdateGroupKey} {update : BgpLib.BgpUpdate2} {nh : IPAddress} {fuel : Nat}
  {descriptor : UpdateDescriptor} {pdu : List Bytes} {messages : List UpdateMessage} {offset : Nat}
  {nexthop : P → IPAddress} {s : PduWrites P} {peer : P}

structure OwnBytes (offset n : Nat) (pdu : List Bytes) (nexthop : P → IPAddress) (s : PduWrites P) : Prop where
  storage : s.storage = pdu ∨ ∃ bytes : Bytes, bytes.length = n ∧ s.storage = pdu.map (overwrite offset bytes)
  writing : ∀ peer, s.Writing peer → s.storage = pdu.map (overwrite offset (nexthop peer).bytes)
  sent : ∀ peer, s.sent peer <+: (pdu.map (overwrite offset (nexthop peer).bytes)).flatten

theorem isPrefix_append_take_drop {α : Type} {sent whole : List α} (h : sent <+: whole) (count : Nat) :
    sent ++ (whole.drop sent.length).take count <+: whole := by
  obtain ⟨rest, rfl⟩ := h
  rw [drop_left]
  exact (prefix_append_right_inj sent).mpr ( take_prefix count rest)

theorem OwnBytes.serialize (h : OwnBytes offset nh.bytes.length pdu nexthop s)
    (hshared : SharedPdu key update nh fuel descriptor pdu messages offset)
    (hfam : ∀ peer, (nexthop peer).isV4 = nh.isV4) (hne : ∀ peer, nexthop peer ≠ .empty)
    (hexclusive : ∀ other, s.Writing other → nexthop other = nexthop peer) :
    OwnBytes offset nh.bytes.length pdu nexthop (s.exec descriptor nexthop (.serialize peer)) := by
  have hbytes := hshared.length_bytes_of_family (hfam peer) (hne peer)
  have hpdu : pdu.length = messages.length := by rw [hshared.pdu_eq, length_map]
  have hstorage : (s.exec descriptor nexthop (.serialize peer)).storage =
      pdu.map (overwrite offset (nexthop peer).bytes) := by
    rcases h.storage with hs | ⟨bytes, hlen, hs⟩
    · rw [PduWrites.exec, hs, hshared.serialize_of_family (hfam peer) (hne peer) hpdu]
    · rw [PduWrites.exec, hs, hshared.serialize_of_family (hfam peer) (hne peer) (by rw [length_map, hpdu]),
        map_overwrite_map_overwrite (hlen.trans hbytes.symm)]
  refine ⟨.inr ⟨_, hbytes, hstorage⟩, fun other hwriting => ?_, h.sent⟩
  by_cases hother : other = peer
  · rw [hother, hstorage]
  · -- another peer that is writing was already writing before, and has the same nexthop
    have hlen : (s.exec descriptor nexthop (.serialize peer)).storage.flatten.length = s.storage.flatten.length := by
      rcases h.storage with hs | ⟨bytes, -, hs⟩
      · rw [hstorage, hs, length_flatten_map_overwrite]
      · rw [hstorage, hs, length_flatten_map_overwrite, length_flatten_map_overwrite]
    have hbef : s.Writing other := by
      refine ⟨?_, hlen ▸ hwriting.2⟩
      exact (Function.update_of_ne hother ..).symm.trans hwriting.1
    rw [hexclusive other hbef, hstorage]

theorem OwnBytes.handOver (descriptor : UpdateDescriptor)
    (h : OwnBytes offset nh.bytes.length pdu nexthop s) (count : Nat) (hser : s.serialized peer = true) :
    OwnBytes offset nh.bytes.length pdu nexthop (s.exec descriptor nexthop (.handOver peer count)) := by
  have hsent : s.sent peer ++ (s.storage.flatten.drop (s.sent peer).length).take count <+:
      (pdu.map (overwrite offset (nexthop peer).bytes)).flatten := by
    by_cases hcomplete : (s.sent peer).length < s.storage.flatten.length
    · rw [h.writing peer ⟨hser, hcomplete⟩]
      exact isPrefix_append_take_drop (h.sent peer) count
    · rw [drop_eq_nil_of_le (by omega), take_nil, append_nil]
      exact h.sent peer
  refine ⟨h.storage, fun other hwriting => ?_, fun other => ?_⟩
  · have hlen := hwriting.2
    rw [PduWrites.sent_exec_handOver] at hlen
    refine h.writing other ⟨hwriting.1, ?_⟩
    split at hlen
    next hother =>
      rw [hother]
      rw [length_append] at hlen
      exact lt_of_le_of_lt (Nat.le_add_right _ _) hlen
    · exact hlen
  · rw [PduWrites.sent_exec_handOver]
    split
    next hother =>
      rw [hother]
      exact hsent
    · exact h.sent other

theorem ownBytes_of_reachable (hshared : SharedPdu key update nh fuel descriptor pdu messages offset)
    (hfam : ∀ peer, (nexthop peer).isV4 = nh.isV4) (hne : ∀ peer, nexthop peer ≠ .empty)
    (h : Reachable (exclusiveSystem descriptor nexthop pdu) s) : OwnBytes offset nh.bytes.length pdu nexthop s := by
  induction h with
  | init => exact ⟨.inl rfl, fun peer hwriting => (nomatch hwriting.1), fun peer => nil_prefix⟩
  | @step s action _ hen ih =>
    cases action with
    | serialize peer => exact ih.serialize hshared hfam hne (hen.2 peer rfl)
    | handOver peer count => exact ih.handOver descriptor count hen.1

end

/-- Each peer sends its own nexthop, when a peer serializes the shared PDU only while no peer with another nexthop
is writing it, and the nexthops have the family of the path's. -/
theorem sendsOwn_of_exclusive {P : Type} [DecidableEq P] {key : UpdateGroupKey} {path : BgpPath BgpAttributes}
    {afi : BgpLib.BgpUpdateAfi} {prefixes : List BgpLib.RiggedIPPrefix} {update : BgpLib.BgpUpdate2} {fuel : Nat}
    {descriptor : UpdateDescriptor} {pdu : List Bytes} {nexthop : P → IPAddress}
    (hbuild : key.buildGroupUpdate path afi prefixes = some update)
    (hdescriptor : serializeUpdateAndCreateDescriptor update key.as4ByteCapable key.extNhEncodingCapable fuel =
      some descriptor)
    (hpdu : descriptor.serializedGroupPDU = some pdu) (hfamily : ∀ peer, (nexthop peer).isV4 = path.nexthop.isV4)
    (hne : ∀ peer, nexthop peer ≠ .empty) {s : PduWrites P}
    (h : Reachable (exclusiveSystem descriptor nexthop pdu) s) : s.SendsOwn descriptor nexthop key update := by
  obtain ⟨messages, offset, hshared⟩ := exists_sharedPdu hbuild hdescriptor hpdu
  intro peer
  exact ⟨_, hshared.peerBytes (hfamily peer) (hne peer), (ownBytes_of_reachable hshared hfamily hne h).sent peer⟩

def peerNexthop : Bool → IPAddress
  | false => .ofOctets 10 0 0 253
  | true => .ofOctets 10 0 0 254

/-- One peer after the other. -/
def sequentialRun : List (PduAction Bool) :=
  [.serialize false, .handOver false 20, .handOver false 100, .serialize true, .handOver true 100]

/-- The second peer serializes while the write of the first is suspended. -/
def suspendedRun : List (PduAction Bool) := [.serialize false, .serialize true, .handOver false 100]

/-- The descriptor of the group's message to peers without RFC 5549, and its PDU. -/
def v4Descriptor : UpdateDescriptor := (serializeUpdateAndCreateDescriptor v4GroupUpdate true false 1).getD {}

def v4Pdu : List Bytes := v4Descriptor.serializedGroupPDU.getD []

theorem v4Descriptor_eq : serializeUpdateAndCreateDescriptor v4GroupUpdate true false 1 = some v4Descriptor ∧
    v4Descriptor.serializedGroupPDU = some v4Pdu := ⟨rfl, rfl⟩

theorem sendsOwn_of_exclusive_sequentialRun : Reachable (exclusiveSystem v4Descriptor peerNexthop v4Pdu)
        (run (exclusiveSystem v4Descriptor peerNexthop v4Pdu) (exclusiveSystem v4Descriptor peerNexthop v4Pdu).init
          sequentialRun) ∧
      (run (exclusiveSystem v4Descriptor peerNexthop v4Pdu) (exclusiveSystem v4Descriptor peerNexthop v4Pdu).init
        sequentialRun).SendsOwn v4Descriptor peerNexthop (ebgpKey false) v4GroupUpdate := by
  have hadm : Admits (exclusiveSystem v4Descriptor peerNexthop v4Pdu)
      (exclusiveSystem v4Descriptor peerNexthop v4Pdu).init sequentialRun := by decide +kernel
  have hreach := Reachable.init.run hadm
  exact ⟨hreach, @sendsOwn_of_exclusive Bool _ (ebgpKey false) v4Path .afiIPv4 v4Prefixes _ _ _ _ _ rfl
    v4Descriptor_eq.1 v4Descriptor_eq.2 (fun peer => by cases peer <;> rfl)
    (fun peer => by cases peer <;> simp [peerNexthop]) _ hreach⟩

/-- The first peer is sent the nexthop of the second. -/
theorem exists_peer_sent_other_nexthop : ∃ s, Reachable (pduSystem v4Descriptor peerNexthop v4Pdu) s ∧
    s.sent false = ((peerDescriptor v4Descriptor (peerNexthop true)).serialize v4Pdu).flatten ∧
      ¬s.SendsOwn v4Descriptor peerNexthop (ebgpKey false) v4GroupUpdate := by
  have hadm : Admits (pduSystem v4Descriptor peerNexthop v4Pdu) (pduSystem v4Descriptor peerNexthop v4Pdu).init
      suspendedRun := ⟨rfl, rfl, rfl, trivial⟩
  have hsent : (run (pduSystem v4Descriptor peerNexthop v4Pdu) (pduSystem v4Descriptor peerNexthop v4Pdu).init
      suspendedRun).sent false = ((peerDescriptor v4Descriptor (peerNexthop true)).serialize v4Pdu).flatten := by
    decide +kernel
  refine ⟨_, Reachable.init.run hadm, hsent, fun hown => ?_⟩
  obtain ⟨buffers, hbytes, hbegins⟩ := hown false
  have hoffs : v4Descriptor.nexthopOffsets = [⟨0, 39, true⟩] := by decide +kernel
  have hone : buffers.length = 1 := by
    have hlocated := congrArg List.length hbytes.located
    rw [hoffs, length_range] at hlocated
    exact hlocated.symm
  obtain ⟨buf, rfl⟩ := length_eq_one_iff.mp hone
  have hcarried := hbytes.carried ⟨0, 39, true⟩ (by rw [hoffs]; exact mem_singleton_self _) buf rfl
  -- what has left holds the other nexthop at the same place
  have hother : HoldsAt 39 [10, 0, 0, 254] buf := by
    rw [flatten_singleton] at hbegins
    exact HoldsAt.of_isPrefix (by decide +kernel) hbegins (by decide +kernel)
  exact absurd (hcarried.symm.trans hother) (by decide)

end FbossBgp.AdjRib
