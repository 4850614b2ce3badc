import FbossBgp.Lib.Semaphore
import FbossBgp.Lib.Transition
import Mathlib.Data.Fintype.Card

/-! The coalescing queue of one consumer, under any interleaving of its producers and the consumer. A step is
one locked section or one operation of the semaphore. The iterators of the key index are addresses of nodes. -/

namespace FbossBgp.Coro

open List Transition Function

/-- A value pushed under a key, or one that supersedes all keys. -/
structure Element (K T : Type) where
  key : Option K
  val : T
  deriving DecidableEq

structure Node (K T : Type) extends Element K T where
  address : Nat

structure MergeQueue (K T : Type) where
  queue : List (Node K T) := []
  keyIters : K → Option Nat := fun _ => none
  sem : Semaphore Unit := .create 0

namespace MergeQueue

variable {K T : Type} [DecidableEq K]

def replaceAt (queue : List (Node K T)) (pendingIt : Nat) (replacement : Node K T → Node K T) : List (Node K T) :=
  queue.map fun node => if node.address = pendingIt then replacement node else node

variable (q : MergeQueue K T) (trivial : Bool) (elements : List (Element K T)) {key : K}

/-- The locked section of `pushMergeWith`: whether the value coalesced with a pending one. A value that is
trivially destructible is assigned to the pending node; otherwise the incoming node takes its place. -/
def pushMergeWith (merge : T → T → T) (address : Nat) (val : T) (key : K) : Bool × MergeQueue K T :=
  match q.keyIters key with
  | some pendingIt =>
    if trivial then
      (true, { q with
          queue := replaceAt q.queue pendingIt fun pending => { pending with val := merge val pending.val } })
    else
      (true, { q with
          queue := replaceAt q.queue pendingIt fun pending => ⟨⟨some key, merge val pending.val⟩, address⟩
          keyIters := Function.update q.keyIters key (some address) })
  | none =>
    (false, { q with
        queue := q.queue ++ [⟨⟨some key, val⟩, address⟩]
        keyIters := Function.update q.keyIters key (some address) })

def pushMerge (address : Nat) (val : T) (key : K) : Bool × MergeQueue K T :=
  q.pushMergeWith trivial (fun incoming _ => incoming) address val key

/-- The locked section of `pushPurgeAll`. -/
def pushPurgeAll (address : Nat) (val : T) : MergeQueue K T :=
  { q with queue := [⟨⟨none, val⟩, address⟩], keyIters := fun _ => none }

/-- The key index without the front node, if it is the one that is indexed. -/
def unindex (keyIters : K → Option Nat) (front : Node K T) : K → Option Nat :=
  match front.key with
  | none => keyIters
  | some key => if keyIters key = some front.address then Function.update keyIters key none else keyIters

def dequeue : Option (Node K T × MergeQueue K T) :=
  match q.queue with
  | [] => none
  | front :: rest => some (front, { q with queue := rest, keyIters := unindex q.keyIters front })

/-- Where the consumer is: outside, about to wait, suspended, or with a credit and about to dequeue. `blocking`
tells `pop` from `tryPop`. -/
inductive Consumer where
  | idle
  | looping (blocking : Bool)
  | suspended
  | holding (blocking : Bool)
  deriving DecidableEq

def Consumer.credit : Consumer → Nat
  | .holding _ => 1
  | _ => 0

/-- The queue and its users. -/
structure Users (K T : Type) where
  queue : MergeQueue K T := {}
  /-- Signals owed by producers that have left the lock. -/
  owed : Nat := 0
  consumer : Consumer := .idle

inductive Action (K T : Type) where
  | pushMerge (address : Nat) (val : T) (key : K)
  | pushPurgeAll (address : Nat) (val : T)
  | signal
  | start (blocking : Bool)
  | wait
  | cancel
  | dequeue

/-- What a call pushes. -/
def Action.pushed : Action K T → List (Element K T)
  | .pushMerge _ val key => [⟨some key, val⟩]
  | .pushPurgeAll _ val => [⟨none, val⟩]
  | _ => []

namespace Users

variable (s : Users K T)

def pushMerge (trivial : Bool) (address : Nat) (val : T) (key : K) : Users K T :=
  let (coalesced, queue) := s.queue.pushMerge trivial address val key
  { s with queue := queue, owed := if coalesced then s.owed else s.owed + 1 }

def pushPurgeAll (address : Nat) (val : T) : Users K T :=
  { s with queue := s.queue.pushPurgeAll address val, owed := s.owed + 1 }

/-- The credit goes to the consumer if it is suspended. -/
def signal : Users K T :=
  let (woken, sem) := s.queue.sem.signal
  { s with
    queue := { s.queue with sem := sem }
    owed := s.owed - 1
    consumer := if woken.isSome then .holding true else s.consumer }

/-- `pop` waits for a credit, and `tryPop` returns if there is none. -/
def wait : Users K T :=
  match s.consumer with
  | .looping true =>
    let (acquired, sem) := s.queue.sem.wait ()
    { s with
      queue := { s.queue with sem := sem }
      consumer := if acquired then .holding true else .suspended }
  | .looping false => match s.queue.sem.tryWait with
    | none => { s with consumer := .idle }
    | some sem => { s with queue := { s.queue with sem := sem }, consumer := .holding false }
  | _ => s

/-- A credit whose node was purged finds the queue empty, and the consumer tries again. -/
def dequeue : Users K T :=
  match s.consumer with
  | .holding blocking => match s.queue.dequeue with
    | none => { s with consumer := .looping blocking }
    | some (_, queue) => { s with queue := queue, consumer := .idle }
  | _ => s

def exec (trivial : Bool) (s : Users K T) : Action K T → Users K T
  | .pushMerge address val key => s.pushMerge trivial address val key
  | .pushPurgeAll address val => s.pushPurgeAll address val
  | .signal => s.signal
  | .start blocking => { s with consumer := .looping blocking }
  | .wait => s.wait
  | .cancel => { s with queue := { s.queue with sem := s.queue.sem.cancel 0 }, consumer := .idle }
  | .dequeue => s.dequeue

/-- A new node is at an address that is not in use, and a step of a call needs the call to be in the stage
before it. -/
def Enabled : Action K T → Prop
  | .pushMerge address _ _ => ∀ node ∈ s.queue.queue, node.address ≠ address
  | .pushPurgeAll address _ => ∀ node ∈ s.queue.queue, node.address ≠ address
  | .signal => 0 < s.owed
  | .start _ => s.consumer = .idle
  | .wait => ∃ blocking, s.consumer = .looping blocking
  | .cancel => s.consumer = .suspended
  | .dequeue => ∃ blocking, s.consumer = .holding blocking

/-- The elements that are pending. -/
def pending : List (Element K T) := s.queue.queue.map Node.toElement

/-- What an action takes from the queue. -/
def pops : Action K T → List (Element K T)
  | .dequeue => s.pending.take 1
  | _ => []

end Users

/-- The users of a queue of values that are trivially destructible or not. -/
def userSystem (K T : Type) [DecidableEq K] (trivial : Bool) : System (Users K T) (Action K T) where
  init := {}
  enabled := Users.Enabled
  exec := Users.exec trivial

instance (s : Users K T) (action : Action K T) : Decidable ((userSystem K T trivial).enabled s action) := by
  cases action <;> dsimp only [userSystem, Users.Enabled] <;> infer_instance

/-- The store after an element: its key is set, or all keys are reset. -/
def applyElement (store : K → Option T) (element : Element K T) : K → Option T :=
  match element.key with
  | none => fun _ => none
  | some key => Function.update store key (some element.val)

/-- The store after elements in order, from the empty one. -/
def applyElements : K → Option T := elements.foldl applyElement fun _ => none

section

/-- Addresses are distinct, the key index holds the keys of the keyed nodes with their addresses, and only the
front node can be a purging one. -/
structure Indexed (q : MergeQueue K T) : Prop where
  nodup : (q.queue.map Node.address).Nodup
  index : ∀ key address, q.keyIters key = some address ↔ ∃ node ∈ q.queue, node.key = some key ∧ node.address = address
  purge : ∀ node ∈ q.queue.tail, node.key ≠ none

variable {q : MergeQueue K T} {before after : List (Node K T)} {address : Nat} {key : K} {pending : Node K T}
  {pendingIt : Nat}

omit [DecidableEq K] in
theorem Indexed.eq_of_key (h : Indexed q) {node node' : Node K T} (hnode : node ∈ q.queue)
    (hnode' : node' ∈ q.queue) (hkey : node.key = some key) (hkey' : node'.key = some key) : node = node' := by
  have haddr := (h.index key node.address).mpr ⟨node, hnode, hkey, rfl⟩
  have haddr' := (h.index key node'.address).mpr ⟨node', hnode', hkey', rfl⟩
  exact inj_on_of_nodup_map h.nodup hnode hnode' (Option.some.inj (haddr.symm.trans haddr'))

omit [DecidableEq K] in
theorem Indexed.nodup_keys (h : Indexed q) : (q.queue.filterMap fun node => node.key).Nodup := by
  rw [List.Nodup, pairwise_filterMap]
  refine (pairwise_map.mp h.nodup).imp_of_mem fun hnode hnode' hne key hkey key' hkey' heq => hne ?_
  rw [h.eq_of_key hnode hnode' hkey (heq ▸ hkey')]

omit [DecidableEq K] in
/-- The pending node of a key stands alone among nodes of other keys, with no purging one behind it. -/
theorem Indexed.exists_split (h : Indexed q) (hkey : q.keyIters key = some pendingIt) :
    ∃ before pending after, q.queue = before ++ pending :: after ∧ pending.key = some key ∧
      pending.address = pendingIt ∧ (∀ node ∈ before ++ after, node.key ≠ some key ∧ node.address ≠ pendingIt) ∧
      ∀ node ∈ after, node.key ≠ none := by
  obtain ⟨pending, hpend, hpkey, haddr⟩ := (h.index key pendingIt).mp hkey
  obtain ⟨before, after, hsplit⟩ := append_of_mem hpend
  have hnodup := h.nodup
  rw [hsplit, map_append, map_cons, nodup_middle, nodup_cons, ← map_append] at hnodup
  have hother : ∀ node ∈ before ++ after, node.address ≠ pendingIt := by
    intro node hnode heq
    exact hnodup.1 (haddr.trans heq.symm ▸ mem_map_of_mem hnode)
  refine ⟨before, pending, after, hsplit, hpkey, haddr, fun node hnode => ⟨fun hsame => ?_, hother node hnode⟩,
    fun node hnode => h.purge node ?_⟩
  · have hmem : node ∈ q.queue := by
      rw [hsplit]
      rcases mem_append.mp hnode with hnode | hnode <;> simp [hnode]
    have heq : node = pending := h.eq_of_key hmem hpend hsame hpkey
    exact hother node hnode (heq ▸ haddr)
  · rw [hsplit]
    cases before with
    | nil => exact hnode
    | cons head before => simp [hnode]

omit [DecidableEq K] in
theorem replaceAt_split
    (haddr : pending.address = pendingIt) (hother : ∀ node ∈ before ++ after, node.address ≠ pendingIt)
    (replacement : Node K T → Node K T) :
    replaceAt (before ++ pending :: after) pendingIt replacement = before ++ replacement pending :: after := by
  have hkeep : ∀ nodes : List (Node K T), (∀ node ∈ nodes, node.address ≠ pendingIt) →
      (nodes.map fun node => if node.address = pendingIt then replacement node else node) = nodes := by
    intro nodes hnodes
    calc (nodes.map fun node => if node.address = pendingIt then replacement node else node) = nodes.map id :=
          map_congr_left fun node hnode => if_neg (hnodes node hnode)
      _ = nodes := map_id nodes
  rw [replaceAt, map_append, map_cons, if_pos haddr,
    hkeep before fun node hnode => hother node (mem_append_left _ hnode),
    hkeep after fun node hnode => hother node (mem_append_right _ hnode)]

/-- A push under a key appends a node, or replaces the pending one by a node at the same or a new address. -/
theorem Indexed.pushMerge_cases (h : Indexed q) (trivial : Bool)
    (hfresh : ∀ node ∈ q.queue, node.address ≠ address) (val : T) (key : K) :
    (q.keyIters key = none ∧ q.pushMerge trivial address val key = (false, { q with
          queue := q.queue ++ [⟨⟨some key, val⟩, address⟩]
          keyIters := Function.update q.keyIters key (some address) })) ∨
      ∃ before pending after newAddress, q.queue = before ++ pending :: after ∧ pending.key = some key ∧
        (∀ node ∈ before ++ after, node.key ≠ some key ∧ node.address ≠ newAddress) ∧
        (∀ node ∈ after, node.key ≠ none) ∧ q.pushMerge trivial address val key = (true, { q with
            queue := before ++ ⟨⟨some key, val⟩, newAddress⟩ :: after
            keyIters := Function.update q.keyIters key (some newAddress) }) := by
  cases hkey : q.keyIters key with
  | none => exact .inl ⟨rfl, by rw [pushMerge, pushMergeWith, hkey]⟩
  | some pendingIt =>
    obtain ⟨before, pending, after, hsplit, hpkey, haddr, hother, hpurge⟩ := h.exists_split hkey
    have haddresses : ∀ node ∈ before ++ after, node.address ≠ pendingIt := fun node hnode => (hother node hnode).2
    right
    cases trivial with
    | true =>
      refine ⟨before, pending, after, pendingIt, hsplit, hpkey, hother, hpurge, ?_⟩
      have hsame : Function.update q.keyIters key (some pendingIt) = q.keyIters := by
        rw [← hkey, update_eq_self]
      rw [pushMerge, pushMergeWith, hkey, hsplit]
      dsimp only
      rw [if_pos rfl, replaceAt_split haddr haddresses, hsame, hpkey, haddr]
    | false =>
      refine ⟨before, pending, after, address, hsplit, hpkey, fun node hnode => ⟨(hother node hnode).1, ?_⟩, hpurge, ?_⟩
      · refine hfresh node ?_
        rw [hsplit]
        rcases mem_append.mp hnode with hnode | hnode <;> simp [hnode]
      · rw [pushMerge, pushMergeWith, hkey, hsplit]
        dsimp only
        rw [if_neg Bool.false_ne_true, replaceAt_split haddr haddresses]

theorem Indexed.append (h : Indexed q) (hfresh : ∀ node ∈ q.queue, node.address ≠ address)
    (hkey : q.keyIters key = none) (val : T) : Indexed { q with
      queue := q.queue ++ [⟨⟨some key, val⟩, address⟩]
      keyIters := Function.update q.keyIters key (some address) } := by
  refine ⟨?_, fun key' address' => ?_, fun node hnode => ?_⟩
  · rw [map_append, map_singleton]
    refine h.nodup.append (nodup_singleton _) ?_
    rw [disjoint_singleton, mem_map]
    rintro ⟨node, hnode, heq⟩
    exact hfresh node hnode heq
  · by_cases heq : key' = key
    · subst heq
      have hnone : ∀ node ∈ q.queue, node.key ≠ some key' := fun node hnode hsome =>
        absurd ((h.index key' node.address).mpr ⟨node, hnode, hsome, rfl⟩) (by rw [hkey]; nofun)
      simp only [update_self, Option.some.injEq, mem_append, mem_singleton]
      constructor
      · rintro rfl
        exact ⟨_, .inr rfl, rfl, rfl⟩
      · rintro ⟨node, hnode | rfl, hsome, haddr⟩
        · exact absurd hsome (hnone node hnode)
        · exact haddr
    · simp only [update_of_ne heq, mem_append, mem_singleton, h.index]
      constructor
      · rintro ⟨node, hnode, hsome, haddr⟩
        exact ⟨node, .inl hnode, hsome, haddr⟩
      · rintro ⟨node, hnode | rfl, hsome, haddr⟩
        · exact ⟨node, hnode, hsome, haddr⟩
        · exact absurd (Option.some.inj hsome).symm heq
  · cases hqueue : q.queue with
    | nil =>
      rw [hqueue] at hnode
      cases hnode
    | cons front rest =>
      have hpurge := h.purge
      rw [hqueue] at hnode hpurge
      rcases mem_append.mp hnode with hnode | hnode
      · exact hpurge node hnode
      · rw [mem_singleton.mp hnode]
        nofun

omit [DecidableEq K] in
theorem mem_middle {node other : Node K T} :
    node ∈ before ++ other :: after ↔ node = other ∨ node ∈ before ++ after := by
  rw [mem_append, mem_append, mem_cons, or_left_comm]

theorem Indexed.replace (h : Indexed q)
    (hsplit : q.queue = before ++ pending :: after) (hpend : pending.key = some key)
    (hother : ∀ node ∈ before ++ after, node.key ≠ some key ∧ node.address ≠ address) (val : T) :
    Indexed { q with
      queue := before ++ ⟨⟨some key, val⟩, address⟩ :: after
      keyIters := Function.update q.keyIters key (some address) } := by
  obtain ⟨hnodup, hindex, hpurge⟩ := h
  rw [hsplit] at hnodup hpurge
  simp only [hsplit] at hindex
  refine ⟨?_, fun key' address' => ?_, ?_⟩
  · rw [map_append, map_cons, nodup_middle, nodup_cons, ← map_append] at hnodup ⊢
    refine ⟨fun hmem => ?_, hnodup.2⟩
    obtain ⟨node, hnode, heq⟩ := mem_map.mp hmem
    exact (hother node hnode).2 heq
  · dsimp only
    by_cases heq : key' = key
    · subst heq
      rw [update_self, Option.some.injEq]
      constructor
      · rintro rfl
        exact ⟨_, mem_append_right _ mem_cons_self, rfl, rfl⟩
      · rintro ⟨node, hnode, hsome, haddr⟩
        rcases mem_middle.mp hnode with rfl | hnode
        · exact haddr
        · exact absurd hsome (hother node hnode).1
    · rw [update_of_ne heq, hindex]
      have hmem : ∀ node : Node K T, node.key = some key' →
          (node ∈ before ++ pending :: after ↔ node ∈ before ++ ⟨⟨some key, val⟩, address⟩ :: after) := by
        intro node hsome
        rw [mem_middle, mem_middle]
        refine or_congr_left (iff_of_false ?_ ?_)
        · rintro rfl
          exact heq (Option.some.inj (hsome.symm.trans hpend))
        · rintro rfl
          exact heq (Option.some.inj hsome).symm
      exact exists_congr fun node => ⟨fun h => ⟨(hmem node h.2.1).mp h.1, h.2⟩, fun h => ⟨(hmem node h.2.1).mpr h.1, h.2⟩⟩
  · cases before with
    | nil => exact hpurge
    | cons front before =>
      intro node hnode
      rcases mem_middle.mp hnode with rfl | hnode
      · nofun
      · exact hpurge node (mem_middle.mpr (.inr hnode))

omit [DecidableEq K] in
theorem indexed_pushPurgeAll (q : MergeQueue K T) (address : Nat) (val : T) :
    Indexed (q.pushPurgeAll address val) := by
  refine ⟨nodup_singleton _, fun key address' => iff_of_false nofun ?_, nofun⟩
  rintro ⟨node, hnode, hsome, -⟩
  rw [mem_singleton.mp hnode] at hsome
  cases hsome

theorem Indexed.dequeue (h : Indexed q) {front : Node K T} {rest : List (Node K T)} (hqueue : q.queue = front :: rest) :
    Indexed { q with queue := rest, keyIters := unindex q.keyIters front } := by
  obtain ⟨hnodup, hindex, hpurge⟩ := h
  rw [hqueue, map_cons, nodup_cons] at hnodup
  rw [hqueue] at hpurge
  simp only [hqueue, mem_cons, exists_eq_or_imp] at hindex
  have hother : ∀ node ∈ rest, node.address ≠ front.address := fun node hnode heq =>
    hnodup.1 (heq ▸ mem_map_of_mem hnode)
  refine ⟨hnodup.2, fun key address => ?_, fun node hnode => hpurge node (mem_of_mem_tail hnode)⟩
  rw [unindex]
  cases hfront : front.key with
  | none =>
    rw [hindex, hfront]
    simp
  | some frontKey =>
    have hfrontIndex : q.keyIters frontKey = some front.address := (hindex frontKey front.address).mpr (.inl ⟨hfront, rfl⟩)
    dsimp only
    rw [if_pos hfrontIndex]
    by_cases heq : key = frontKey
    · subst heq
      rw [update_self]
      refine iff_of_false nofun ?_
      rintro ⟨node, hnode, hsome, -⟩
      have haddr := (hindex key node.address).mpr (.inr ⟨node, hnode, hsome, rfl⟩)
      exact hother node hnode (Option.some.inj (haddr.symm.trans hfrontIndex))
    · rw [update_of_ne heq, hindex, hfront]
      refine ⟨fun hcase => hcase.resolve_left fun h => heq (Option.some.inj h.1).symm, .inr⟩

end

theorem applyElements_append_singleton (element : Element K T) :
    applyElements (elements ++ [element]) = applyElement (applyElements elements) element := by
  rw [applyElements, foldl_append]
  rfl

theorem foldl_applyElement_update {elements : List (Element K T)}
    (h : ∀ element ∈ elements, element.key ≠ some key ∧ element.key ≠ none) (store : K → Option T) (value : Option T) :
    elements.foldl applyElement (Function.update store key value) =
      Function.update (elements.foldl applyElement store) key value := by
  induction elements generalizing store with
  | nil => rfl
  | cons element elements ih =>
    obtain ⟨hkey, hpurge⟩ := h element mem_cons_self
    have hstep : applyElement (Function.update store key value) element =
        Function.update (applyElement store element) key value := by
      rw [applyElement, applyElement]
      cases hother : element.key with
      | none => exact absurd hother hpurge
      | some other =>
        have hne : key ≠ other := fun heq => hkey (heq ▸ hother)
        exact update_comm hne ..
    rw [foldl_cons, hstep]
    exact ih (fun other hother => h other (mem_cons_of_mem _ hother)) _

/-- A value that replaces the pending one of its key has the effect of one that comes last. -/
theorem applyElements_replace {before after : List (Element K T)} {pending : Element K T}
    (hpend : pending.key = some key) (hafter : ∀ element ∈ after, element.key ≠ some key ∧ element.key ≠ none)
    (val : T) : applyElements (before ++ ⟨some key, val⟩ :: after) =
      applyElement (applyElements (before ++ pending :: after)) ⟨some key, val⟩ := by
  have hold : applyElements (before ++ pending :: after) =
      Function.update (after.foldl applyElement (applyElements before)) key (some pending.val) := by
    rw [applyElements, foldl_append, foldl_cons, ← foldl_applyElement_update hafter]
    rw [applyElement, hpend]
    rfl
  rw [hold, applyElements, foldl_append]
  show after.foldl applyElement (Function.update _ key (some val)) = Function.update _ key (some val)
  rw [foldl_applyElement_update hafter, update_idem]
  rfl

/-- A later element makes up for an earlier one: it has the same key, or it purges. -/
def Supersedes (later earlier : Element K T) : Prop := later.key = none ∨ later.key = earlier.key

/-- What is left of pushes of which each takes a place among the elements before it and drops none but those that
it supersedes. -/
inductive Coalesced : List (Element K T) → List (Element K T) → Prop
  | nil : Coalesced [] []
  | push {pushes before dropped after : List (Element K T)} {new : Element K T}
      (h : Coalesced pushes (before ++ dropped ++ after)) (hdropped : ∀ element ∈ dropped, Supersedes new element) :
      Coalesced (pushes ++ [new]) (before ++ new :: after)

/-- The elements are what is left of the pushes, and leave the store that the pushes leave. -/
structure Logged (pushes elements : List (Element K T)) : Prop where
  coalesced : Coalesced pushes elements
  store : applyElements elements = applyElements pushes

theorem Logged.push {pushes before dropped after : List (Element K T)} {new : Element K T}
    (h : Logged pushes (before ++ dropped ++ after)) (hdropped : ∀ element ∈ dropped, Supersedes new element)
    (hstore : applyElements (before ++ new :: after) = applyElement (applyElements (before ++ dropped ++ after)) new) :
    Logged (pushes ++ [new]) (before ++ new :: after) :=
  ⟨.push h.coalesced hdropped, by rw [hstore, h.store, applyElements_append_singleton]⟩

section Accounts

variable {s : Users K T} {pushes popped : List (Element K T)}

theorem Logged.pushMerge (h : Logged pushes (popped ++ s.pending)) (hidx : s.queue.Indexed) (trivial : Bool)
    {address : Nat} (hfresh : ∀ node ∈ s.queue.queue, node.address ≠ address) (val : T) (key : K) :
    Logged (pushes ++ [⟨some key, val⟩]) (popped ++ (s.pushMerge trivial address val key).pending) := by
  rcases hidx.pushMerge_cases trivial hfresh val key with
    ⟨-, hpush⟩ | ⟨before, pending, after, newAddress, hsplit, hpend, hother, hpurge, hpush⟩
  · rw [Users.pushMerge, hpush, Users.pending, map_append, ← append_assoc]
    rw [← append_nil (popped ++ _), ← append_nil (popped ++ _)] at h
    exact h.push nofun (by rw [append_nil, append_nil]; exact applyElements_append_singleton _ _)
  · rw [Users.pending, hsplit, map_append, map_cons, ← append_assoc, append_cons] at h
    rw [Users.pushMerge, hpush, Users.pending, map_append, map_cons, ← append_assoc]
    refine h.push (fun element helement => ?_) ?_
    · rw [mem_singleton.mp helement]
      exact .inr hpend.symm
    · rw [← append_cons]
      refine applyElements_replace hpend (fun element helement => ?_) val
      obtain ⟨node, hnode, rfl⟩ := mem_map.mp helement
      exact ⟨(hother node (mem_append_right _ hnode)).1, hpurge node hnode⟩

omit [DecidableEq K] in
theorem Users.pending_wait : s.wait.pending = s.pending := by
  rw [wait]
  split
  · rfl
  · split <;> rfl
  · rfl

/-- Each action keeps the account of what was pushed and what was popped. -/
theorem Logged.exec (h : Logged pushes (popped ++ s.pending)) (hidx : s.queue.Indexed) (trivial : Bool)
    {action : Action K T} (hen : s.Enabled action) :
    Logged (pushes ++ action.pushed) (popped ++ s.pops action ++ (s.exec trivial action).pending) := by
  cases action with
  | pushMerge address val key =>
    simp only [Users.pops, append_nil]
    exact h.pushMerge hidx trivial hen val key
  | pushPurgeAll address val =>
    rw [← append_nil (popped ++ _)] at h
    simp only [Users.pops, append_nil]
    refine h.push (fun _ _ => .inl rfl) ?_
    rw [applyElements_append_singleton]
    rfl
  | dequeue =>
    obtain ⟨blocking, hholding⟩ := hen
    have hpending : s.pending.take 1 ++ s.dequeue.pending = s.pending := by
      rw [Users.dequeue, hholding, Users.pending, MergeQueue.dequeue]
      cases hqueue : s.queue.queue with
      | nil => exact congrArg (List.map Node.toElement) hqueue
      | cons front rest => rfl
    simp only [Action.pushed, Users.pops, Users.exec, append_nil, append_assoc, hpending]
    exact h
  | wait =>
    simp only [Action.pushed, Users.pops, Users.exec, append_nil, Users.pending_wait]
    exact h
  | _ =>
    simp only [Action.pushed, Users.pops, append_nil]
    exact h

end Accounts

namespace Users

structure Inv (s : Users K T) : Prop where
  indexed : s.queue.Indexed
  credits : s.queue.queue.length ≤ s.queue.sem.tokens + s.owed + s.consumer.credit
  waiters : s.queue.sem.waiters = if s.consumer = .suspended then [()] else []

variable {s : Users K T} {blocking : Bool}

section

variable (h : Inv s)
include h

theorem Inv.pushMerge (trivial : Bool) {address : Nat}
    (hfresh : ∀ node ∈ s.queue.queue, node.address ≠ address) (val : T) (key : K) :
    Inv (s.pushMerge trivial address val key) := by
  have hcred := h.credits
  rcases h.indexed.pushMerge_cases trivial hfresh val key with
    ⟨hkey, hpush⟩ | ⟨before, pending, after, newAddress, hsplit, hpend, hother, -, hpush⟩
  · rw [Users.pushMerge, hpush]
    refine ⟨h.indexed.append hfresh hkey val, ?_, h.waiters⟩
    simp only [length_append, length_singleton, Bool.false_eq_true, if_false]
    omega
  · rw [hsplit, length_append] at hcred
    rw [Users.pushMerge, hpush]
    refine ⟨h.indexed.replace hsplit hpend hother val, ?_, h.waiters⟩
    rw [length_append]
    exact hcred

omit [DecidableEq K] in
theorem Inv.pushPurgeAll (address : Nat) (val : T) : Inv (s.pushPurgeAll address val) := by
  refine ⟨indexed_pushPurgeAll .., ?_, h.waiters⟩
  show 1 ≤ s.queue.sem.tokens + (s.owed + 1) + s.consumer.credit
  omega

omit [DecidableEq K] in
theorem Inv.signal (howed : 0 < s.owed) : Inv s.signal := by
  obtain ⟨hidx, hcred, hwait⟩ := h
  rcases s.queue.sem.signal_cases with ⟨hnil, hnone, htokens, hwait'⟩ | ⟨waiter, hcons, hsome, htokens, htokens'⟩
  · have hconsumer : s.consumer ≠ .suspended := by
      intro heq
      rw [hwait, if_pos heq] at hnil
      cases hnil
    refine ⟨⟨hidx.nodup, hidx.index, hidx.purge⟩, ?_, ?_⟩
    · simp only [Users.signal, hnone, Option.isSome_none, Bool.false_eq_true, if_false]
      omega
    · simp only [Users.signal, hwait', hnone, Option.isSome_none, Bool.false_eq_true, if_false]
      rw [if_neg hconsumer]
  · have hconsumer : s.consumer = .suspended := by
      by_contra hne
      rw [hwait, if_neg hne] at hcons
      cases hcons
    rw [hconsumer] at hcred
    rw [hwait, if_pos hconsumer, List.cons.injEq] at hcons
    refine ⟨⟨hidx.nodup, hidx.index, hidx.purge⟩, ?_, ?_⟩
    · simp only [Users.signal, hsome, Option.isSome_some, if_true, Consumer.credit] at hcred ⊢
      omega
    · simp only [Users.signal, hsome]
      exact hcons.2.symm

omit [DecidableEq K] in
theorem Inv.wait (hconsumer : s.consumer = .looping blocking) : Inv s.wait := by
  obtain ⟨hidx, hcred, hwait⟩ := h
  rw [hconsumer] at hcred hwait
  rw [if_neg nofun] at hwait
  cases blocking with
  | true =>
    rw [Users.wait, hconsumer]
    rcases s.queue.sem.wait_cases () with
      ⟨htokens, hacq, htokens', hwait'⟩ | ⟨htokens, hacq, htokens', -, hwait'⟩
    · refine ⟨⟨hidx.nodup, hidx.index, hidx.purge⟩, ?_, ?_⟩
      · simp only [htokens', Consumer.credit] at hcred ⊢
        omega
      · simp only [hwait', hwait, hacq, Bool.false_eq_true, if_false, if_true, nil_append]
    · refine ⟨⟨hidx.nodup, hidx.index, hidx.purge⟩, ?_, ?_⟩
      · simp only [hacq, if_true, Consumer.credit] at hcred ⊢
        omega
      · simp only [hwait', hacq, if_true, reduceCtorEq, if_false]
  | false =>
    rw [Users.wait, hconsumer]
    rcases s.queue.sem.tryWait_cases with ⟨htokens, hnone⟩ | ⟨sem, hsome, htokens, hwait'⟩
    · rw [hnone]
      exact ⟨hidx, hcred, hwait⟩
    · rw [hsome]
      refine ⟨⟨hidx.nodup, hidx.index, hidx.purge⟩, ?_, hwait'.trans hwait⟩
      simp only [Consumer.credit] at hcred ⊢
      omega

theorem Inv.dequeue (hconsumer : s.consumer = .holding blocking) : Inv s.dequeue := by
  obtain ⟨hidx, hcred, hwait⟩ := h
  rw [hconsumer] at hcred hwait
  rw [Users.dequeue, hconsumer]
  rw [MergeQueue.dequeue]
  cases hqueue : s.queue.queue with
  | nil =>
    refine ⟨hidx, ?_, hwait⟩
    rw [hqueue]
    exact Nat.zero_le _
  | cons front rest =>
    refine ⟨hidx.dequeue hqueue, ?_, hwait⟩
    rw [hqueue, length_cons] at hcred
    simp only [Consumer.credit] at hcred ⊢
    omega

theorem Inv.exec (trivial : Bool) {action : Action K T} (hen : s.Enabled action) :
    Inv (s.exec trivial action) := by
  cases action with
  | pushMerge address val key => exact h.pushMerge trivial hen val key
  | pushPurgeAll address val => exact h.pushPurgeAll address val
  | signal => exact h.signal hen
  | start blocking =>
    have hidle : s.consumer = .idle := hen
    have hcred := h.credits
    have hwait := h.waiters
    rw [hidle] at hcred hwait
    exact ⟨h.indexed, hcred, hwait⟩
  | wait =>
    obtain ⟨blocking, hlooping⟩ := hen
    exact h.wait hlooping
  | cancel =>
    have hsuspended : s.consumer = .suspended := hen
    have hcred := h.credits
    have hwait := h.waiters
    rw [hsuspended] at hcred hwait
    refine ⟨⟨h.indexed.nodup, h.indexed.index, h.indexed.purge⟩, hcred, ?_⟩
    show s.queue.sem.waiters.eraseIdx 0 = []
    rw [hwait]
    rfl
  | dequeue =>
    obtain ⟨blocking, hholding⟩ := hen
    exact h.dequeue hholding

end

end Users

theorem inv_of_reachable {trivial : Bool} {s : Users K T} (h : Reachable (userSystem K T trivial) s) : s.Inv := by
  induction h with
  | init =>
    exact ⟨⟨nodup_nil, fun _ _ => iff_of_false nofun fun ⟨_, hnode, _⟩ => absurd hnode not_mem_nil, nofun⟩,
      Nat.le_refl _, rfl⟩
  | step _ hen ih => exact ih.exec trivial hen

theorem Logged.run {trivial : Bool} {s : Users K T} {pushes popped : List (Element K T)} {actions : List (Action K T)}
    (h : Logged pushes (popped ++ s.pending)) (hinv : s.Inv) (hadm : Admits (userSystem K T trivial) s actions) :
    Logged (pushes ++ actions.flatMap Action.pushed) (popped ++ observed (userSystem K T trivial) Users.pops s actions ++
      (run (userSystem K T trivial) s actions).pending) := by
  induction actions generalizing s pushes popped with
  | nil => rwa [flatMap_nil, observed, append_nil, append_nil]
  | cons action actions ih =>
    have hstep := ih (h.exec hinv.indexed trivial hadm.1) (hinv.exec trivial hadm.1) hadm.2
    rwa [append_assoc, append_assoc popped] at hstep

/-- Under every interleaving: the key index holds the keys of the pending keyed nodes, each with the address of
its only node; once the queue is drained the popped elements leave the store that all pushes leave in the order
of their locked sections; what was popped and what is pending is what is left of the pushes, of which a later one
of the same key or a purge drops an earlier one; and there is a credit, available, owed or held, for each pending
node, so that a suspended consumer of a queue that is not empty is owed a signal. -/
theorem index_store_and_credits {trivial : Bool} {actions : List (Action K T)}
    (h : Admits (userSystem K T trivial) (userSystem K T trivial).init actions) :
    let s := run (userSystem K T trivial) (userSystem K T trivial).init actions
    let popped := observed (userSystem K T trivial) Users.pops (userSystem K T trivial).init actions
    let pushes := actions.flatMap Action.pushed
    ((∀ key address, s.queue.keyIters key = some address ↔
        ∃ node ∈ s.queue.queue, node.key = some key ∧ node.address = address) ∧
      (s.queue.queue.map Node.address).Nodup ∧ (s.queue.queue.filterMap fun node => node.key).Nodup) ∧
      (s.queue.queue = [] → applyElements popped = applyElements pushes) ∧
      Coalesced pushes (popped ++ s.queue.queue.map Node.toElement) ∧
      s.queue.queue.length ≤ s.queue.sem.tokens + s.owed + s.consumer.credit ∧
      (s.consumer = .suspended → s.queue.queue ≠ [] → 0 < s.owed) := by
  intro s popped pushes
  obtain ⟨hidx, hcred, hwait⟩ : s.Inv := inv_of_reachable (Reachable.init.run h)
  have hlogged : Logged ([] ++ pushes) ([] ++ popped ++ s.pending) :=
    Logged.run ⟨.nil, rfl⟩ (inv_of_reachable .init) h
  refine ⟨⟨hidx.index, hidx.nodup, hidx.nodup_keys⟩, fun hempty => ?_, hlogged.coalesced, hcred,
    fun hsuspended hpend => ?_⟩
  · have hstore := hlogged.store
    rwa [Users.pending, hempty, map_nil, append_nil] at hstore
  · rw [if_pos hsuspended] at hwait
    have htokens := s.queue.sem.idle (by rw [hwait]; nofun)
    have hlen := length_pos_of_ne_nil hpend
    rw [hsuspended] at hcred
    simp only [Consumer.credit] at hcred
    omega

/-- Coalescing bounds the queue: there are at most as many pending nodes as keys, and a purging one in front. -/
theorem length_queue_le_card [Fintype K] {trivial : Bool} {s : Users K T} (h : Reachable (userSystem K T trivial) s) :
    s.queue.queue.length ≤ Fintype.card K + 1 := by
  have hidx := (inv_of_reachable h).indexed
  have hkeyed : (s.queue.queue.tail.filterMap fun node => node.key).length = s.queue.queue.tail.length :=
    filterMap_length_eq_length.mpr fun node hnode => Option.isSome_iff_ne_none.mpr (hidx.purge node hnode)
  have hle := (hidx.nodup_keys.sublist ((tail_sublist _).filterMap _)).length_le_card
  rw [hkeyed, length_tail] at hle
  omega

/-- A purge and then a value of each of two keys reach the bound. -/
theorem length_queue_le_card_purged :
    let s := run (userSystem (Fin 2) Nat true) {} [.pushPurgeAll 0 9, .pushMerge 1 5 0, .pushMerge 2 6 1]
    s.queue.queue.length = 3 ∧ s.queue.queue.length ≤ Fintype.card (Fin 2) + 1 :=
  ⟨rfl, length_queue_le_card (.run .init (by decide))⟩

/-- The second value of a key coalesces with the first and is popped; a purge drops the value of another key, and
`tryPop` takes it. -/
def coalescingRun : List (Action Nat Nat) :=
  [.pushMerge 0 10 1, .pushMerge 1 20 2, .pushMerge 2 11 1, .signal, .start true, .wait, .dequeue, .pushPurgeAll 3 99,
    .signal, .start false, .wait, .dequeue]

theorem index_store_and_credits_coalescingRun :
    let sys := userSystem Nat Nat false
    (run sys sys.init coalescingRun).queue.queue = [] ∧
      applyElements [⟨some 1, 11⟩, ⟨none, 99⟩] = applyElements (coalescingRun.flatMap Action.pushed) ∧
      Coalesced (coalescingRun.flatMap Action.pushed) [⟨some 1, 11⟩, ⟨none, 99⟩] := by
  obtain ⟨-, hstore, hcoalesced, -⟩ :=
    index_store_and_credits (show Admits (userSystem Nat Nat false) _ coalescingRun by decide)
  exact ⟨rfl, hstore rfl, hcoalesced⟩

end MergeQueue

end FbossBgp.Coro
