import FbossBgp.ChangeTracker.Acks

/-! Registration and deregistration of consumers: the table of consumers, the bit allocator and the
cached bitmap agree on who is registered where. -/

namespace FbossBgp.ChangeTracker

open ListCursor BitmapUtils

variable {C O I : Type*} [DecidableEq C] [DecidableEq O] [DecidableEq I] {s : ChangeTracker C O I}

/-- The table, the consumers' own positions, the allocator and the cached bitmap agree. -/
structure Registered (s : ChangeTracker C O I) : Prop where
  stored : ∀ p c, s.consumers[p]? = some (some c) ↔ s.bitPosition c = p ∧ p ≠ kInvalidBitPosition
  valid : s.consumerBitManager.Valid
  maxBits : s.consumerBitManager.maxBits = ConsumerBitManager.kDefaultMaxBits
  inUse : ∀ p, s.consumerBitManager.InUse p ↔ ∃ c, s.consumers[p]? = some (some c)
  cached : ∀ p, isBitSet s.cachedConsumerBitmap p = true ↔ s.consumerBitManager.InUse p

theorem Registered.sameRegistration {s' : ChangeTracker C O I} (hs : Registered s) (h : SameRegistration s s') :
    Registered s' := by
  obtain ⟨hpos, hconsumers, hmanager, hcached⟩ := h
  refine ⟨?_, ?_, ?_, ?_, ?_⟩
  · rw [hconsumers, hpos]; exact hs.stored
  · rw [hmanager]; exact hs.valid
  · rw [hmanager]; exact hs.maxBits
  · rw [hmanager, hconsumers]; exact hs.inUse
  · rw [hcached, hmanager]; exact hs.cached

theorem Registered.injective (hs : Registered s) {c k : C}
    (hpos : s.bitPosition c = s.bitPosition k) (hc : s.bitPosition c ≠ kInvalidBitPosition) : c = k := by
  have hstored := (hs.stored (s.bitPosition c) c).mpr ⟨rfl, hc⟩
  have hstored' := (hs.stored (s.bitPosition c) k).mpr ⟨hpos.symm, hc⟩
  rw [hstored, Option.some.injEq, Option.some.injEq] at hstored'
  exact hstored'

theorem Registered.isBitSet_full (hs : Registered s) (p : Nat) :
    isBitSet s.getFullConsumerBitmap p = true ↔ ∃ c, s.bitPosition c = p ∧ p ≠ kInvalidBitPosition := by
  rw [getFullConsumerBitmap, hs.cached, hs.inUse]
  simp only [hs.stored]

theorem registered_empty : Registered (empty : ChangeTracker C O I) := by
  have hvalid : (ConsumerBitManager.create ConsumerBitManager.kDefaultMaxBits).Valid :=
    ConsumerBitManager.valid_create (by decide)
  have hunused : ∀ p, ¬(ConsumerBitManager.create ConsumerBitManager.kDefaultMaxBits).InUse p := by
    rintro p ⟨hlt, hfree⟩
    refine hfree ⟨0, ConsumerBitManager.kDefaultMaxBits - 1, by simp [ConsumerBitManager.create], Nat.zero_le p, ?_⟩
    change p < ConsumerBitManager.kDefaultMaxBits at hlt
    omega
  refine ⟨fun p c => ?_, hvalid, rfl, fun p => ?_, fun p => ?_⟩
  · simp only [empty, List.getElem?_nil, reduceCtorEq, false_iff, not_and, not_not]
    exact fun h => h.symm
  · simpa [empty] using hunused p
  · simpa [empty] using hunused p

section

variable {s : ChangeTracker C O I} {c : C} {s' : ChangeTracker C O I} {detached : Set C}

theorem getElem?_storeConsumer (s : ChangeTracker C O I) (b : Nat) (c : C) (p : Nat) (k : C) :
    (s.storeConsumer b c)[p]? = some (some k) ↔ (p = b ∧ k = c) ∨ (p ≠ b ∧ s.consumers[p]? = some (some k)) := by
  unfold storeConsumer
  have hlen : b < (s.consumers.rightpad (b + 1) none).length := by
    rw [List.rightpad, List.length_append, List.length_replicate]
    omega
  by_cases hp : p = b
  · subst hp
    rw [List.getElem?_set_self hlen]
    simp [eq_comm]
  · rw [List.getElem?_set_ne (Ne.symm hp), List.rightpad, List.getElem?_append]
    split
    · simp [hp]
    · rw [List.getElem?_eq_none (l := s.consumers) (by omega), List.getElem?_replicate]
      split <;> simp [hp]

theorem Consistent.modifyConsumer (hs : Consistent detached s) (f : Consumer I → Consumer I)
    (hmk : (f (s.consumer c)).marker = s.marker c) (hhook : (f (s.consumer c)).pendingConsumerHook = s.hook c)
    (hready : (f (s.consumer c)).isInReadyList = s.isInReadyList c) :
    SameLinks s (s.modifyConsumer c f) ∧ Consistent detached (s.modifyConsumer c f) := by
  have hlinks : SameLinks s (s.modifyConsumer c f) :=
    ⟨rfl, consumer_update_eq s (·.marker) hmk, consumer_update_eq s (·.pendingConsumerHook) hhook,
      consumer_update_eq s (·.isInReadyList) hready, rfl⟩
  exact ⟨hlinks, ⟨hs.listed.nodup, hs.listed.mem_iff, hs.listed.owner⟩, hs.linked.sameLinks hlinks, hs.outstanding⟩

theorem Consistent.withTables (hs : Consistent detached s) (consumers : List (Option C))
    (manager : ConsumerBitManager) (cached : ConsumerBitmap) : Consistent detached { s with
      consumers := consumers, consumerBitManager := manager, cachedConsumerBitmap := cached } :=
  ⟨⟨hs.listed.nodup, hs.listed.mem_iff, hs.listed.owner⟩, hs.linked.sameLinks ⟨rfl, rfl, rfl, rfl, rfl⟩, hs.outstanding⟩

theorem bitPosition_modifyConsumer (f : Consumer I → Consumer I) (k : C) :
    (s.modifyConsumer c f).bitPosition k = if k = c then (f (s.consumer c)).bitPosition else s.bitPosition k := by
  simp only [bitPosition, modifyConsumer, Function.update_apply]
  split <;> rfl

/-- The tables of `s` fit the consumers of `s'` when `c` takes the position that it has there. -/
theorem Registered.moved {q : Nat} (h : Registered (s.modifyConsumer c fun k => { k with bitPosition := q }))
    (hsame : SameRegistration s s') (f : Consumer I → Consumer I) (hf : (f (s'.consumer c)).bitPosition = q) :
    Registered (s'.modifyConsumer c f) := by
  refine h.sameRegistration ⟨funext fun k => ?_, hsame.consumers, hsame.consumerBitManager, hsame.cachedConsumerBitmap⟩
  rw [bitPosition_modifyConsumer, bitPosition_modifyConsumer, hf, hsame.bitPosition]

/-- A consumer that was not registered gets a free position and joins the ready set; nothing else
changes. -/
theorem registerWithTracker_new (hs : Consistent ∅ s) (hr : Registered s) (hidle : Idle s c)
    (hc : s.bitPosition c = kInvalidBitPosition) (h : s.registerWithTracker c = .ok s') :
    ∃ b, Registered s' ∧ Consistent ∅ s' ∧ b ≠ kInvalidBitPosition ∧ (∀ k, s.bitPosition k ≠ b) ∧
      (∀ k, s'.bitPosition k = if k = c then b else s.bitPosition k) ∧
      s'.changeList = s.changeList ∧ s'.changeItem = s.changeItem ∧ s'.processed = s.processed ∧
      s'.consumerBitmap = s.consumerBitmap ∧ s'.marker = s.marker ∧ ¬Idle s' c ∧
      ∀ k, k ≠ c → (Idle s' k ↔ Idle s k) := by
  unfold registerWithTracker registerConsumer at h
  rw [if_neg (not_not.mpr hc)] at h
  cases hbit : s.consumerBitManager.getConsumerBit with
  | error e => rw [hbit] at h; cases h
  | ok result =>
    obtain ⟨b, manager⟩ := result
    rw [hbit] at h
    obtain ⟨havailable, hlt, -, hmax, havail, hvalid⟩ := ConsumerBitManager.getConsumerBit_ok hr.valid hbit
    -- the position is below the allocator's bound, so it is not the invalid one
    have hb : b ≠ kInvalidBitPosition := by
      rw [hr.maxBits] at hlt
      unfold ConsumerBitManager.kDefaultMaxBits at hlt
      unfold kInvalidBitPosition
      omega
    have hfree : ∀ k, s.bitPosition k ≠ b := by
      intro k hk
      have hinUse := (hr.inUse b).mpr ⟨k, (hr.stored b k).mpr ⟨hk, hb⟩⟩
      exact hinUse.2 havailable
    have hinUse : ∀ p, manager.InUse p ↔ p = b ∨ s.consumerBitManager.InUse p := by
      intro p
      rw [ConsumerBitManager.InUse, ConsumerBitManager.InUse, hmax, havail]
      by_cases hp : p = b
      · simp [hp, hlt]
      · simp [hp]
    let tables : ChangeTracker C O I := { s with
      consumers := s.storeConsumer b c
      consumerBitManager := manager
      cachedConsumerBitmap := setBit s.cachedConsumerBitmap b }
    have htables : Registered (tables.modifyConsumer c fun k => { k with bitPosition := b }) := by
      refine ⟨fun p k => ?_, hvalid, hmax.trans hr.maxBits, fun p => ?_, fun p => ?_⟩
      · rw [bitPosition_modifyConsumer]
        change (s.storeConsumer b c)[p]? = _ ↔ (if k = c then b else s.bitPosition k) = p ∧ _
        rw [getElem?_storeConsumer, hr.stored]
        by_cases hk : k = c
        · simp only [hk, and_true, hc]
          constructor
          · rintro (rfl | ⟨-, rfl, hne⟩)
            · exact ⟨rfl, hb⟩
            · exact absurd rfl hne
          · rintro ⟨rfl, -⟩
            exact Or.inl rfl
        · simp only [hk, and_false, false_or]
          constructor
          · exact fun h => h.2
          · exact fun h => ⟨fun hp => hfree k (h.1.trans hp), h⟩
      · change manager.InUse p ↔ ∃ k, (s.storeConsumer b c)[p]? = some (some k)
        simp only [hinUse, getElem?_storeConsumer, hr.inUse]
        by_cases hp : p = b
        · simp [hp]
        · simp [hp]
      · change isBitSet (setBit s.cachedConsumerBitmap b) p = true ↔ manager.InUse p
        simp only [hinUse, isBitSet_setBit, Bool.or_eq_true, hr.cached, decide_eq_true_eq]
        rw [or_comm, eq_comm]
    have hadded : Advanced c tables (tables.addToReadyConsumers c) :=
      addToReadyConsumers_spec (hs.withTables _ _ _) hidle.1
    have hsame := sameItems_addToReadyConsumers tables c
    obtain ⟨hlinks, hfinal⟩ := hadded.consistent.modifyConsumer (c := c)
      (fun k => { k with bitPosition := b, shouldTerminate := false }) rfl rfl rfl
    obtain rfl := Except.ok.inj h
    refine ⟨b, htables.moved hsame.toSameRegistration _ rfl, hfinal, hb, hfree, fun k => ?_,
      hsame.changeList, hsame.changeItem, hsame.processed, hsame.consumerBitmap, ?_, fun hidle' => ?_, fun k hk => ?_⟩
    · rw [bitPosition_modifyConsumer, hsame.bitPosition]
      rfl
    · rw [hlinks.marker, marker_addToReadyConsumers]
      rfl
    · have hflag := hidle'.2.2
      rw [hlinks.isInReadyList, isInReadyList_addToReadyConsumers, if_pos rfl] at hflag
      cases hflag
    · exact (idle_congr (hlinks.place k)).trans (hadded.idle k hk)

theorem registerWithTracker_registered (hs : Consistent ∅ s) (hc : s.bitPosition c ≠ kInvalidBitPosition)
    (h : s.registerWithTracker c = .ok s') :
    Consistent ∅ s' ∧ SameItems s s' ∧ SameLinks s s' := by
  unfold registerWithTracker registerConsumer at h
  rw [if_pos hc] at h
  obtain rfl := Except.ok.inj h
  obtain ⟨hlinks, hfinal⟩ := hs.modifyConsumer (c := c)
    (fun k => { k with bitPosition := s.bitPosition c, shouldTerminate := false }) rfl rfl rfl
  exact ⟨hfinal, sameItems_modifyConsumer s c _ rfl, hlinks⟩

end

section

variable {s : ChangeTracker C O I} {c : C}

theorem removeFromReadyConsumers_spec (hs : Consistent ∅ s) :
    Consistent ∅ (s.removeFromReadyConsumers c) ∧ Acked c s (s.removeFromReadyConsumers c) ∧
      (s.removeFromReadyConsumers c).marker c = s.marker c ∧
      (s.marker c = none → Idle (s.removeFromReadyConsumers c) c) := by
  have hsame := sameItems_removeFromReadyConsumers s c
  have hacked : Acked c s (s.removeFromReadyConsumers c) :=
    hsame.acked fun k hk => by simp [place, hk]
  cases hm : s.marker c with
  | none =>
    have hhook : s.hook c = none := by rw [← hs.linked.marker_eq c (Set.notMem_empty _), hm]
    have hlink := hs.linked.removeFromReadyConsumers hhook
    refine ⟨hs.sameItems hsame (hlink.attach_idle (by simpa using hm)), hacked, by simpa using hm, fun _ => ?_⟩
    exact ⟨by simpa using hm, by simpa using hhook, by simp⟩
  | some m =>
    have hready := (hs.mem_of_marker hm).2.2
    have heq : s.removeFromReadyConsumers c = s := by simp [removeFromReadyConsumers, hready]
    rw [heq]
    exact ⟨hs, .refl c s, hm, fun h => by cases h⟩

/-- Deregistering acknowledges everything for the consumer and frees its position. -/
theorem deregisterFromTracker_spec (hs : Consistent ∅ s) (hr : Registered s)
    (hc : s.bitPosition c ≠ kInvalidBitPosition) :
    Consistent ∅ (s.deregisterFromTracker c) ∧ Registered (s.deregisterFromTracker c) ∧
      (∀ k, (s.deregisterFromTracker c).bitPosition k = if k = c then kInvalidBitPosition else s.bitPosition k) ∧
      Idle (s.deregisterFromTracker c) c ∧ (∀ k, k ≠ c → (Idle (s.deregisterFromTracker c) k ↔ Idle s k)) ∧
      Completes s (s.deregisterFromTracker c) ∧
      (∀ j p, isBitSet ((s.deregisterFromTracker c).consumerBitmap j) p = true →
        isBitSet (s.consumerBitmap j) p = true) ∧
      (∀ k, k ≠ c → ∀ j ∈ (s.deregisterFromTracker c).changeList, Tracks s k j →
        Tracks (s.deregisterFromTracker c) k j) ∧
      (TracksOwned s c → ∀ j, isBitSet ((s.deregisterFromTracker c).consumerBitmap j) (s.bitPosition c) = false) := by
  let p := s.bitPosition c
  have hstored : s.consumers[s.bitPosition c]? = some (some c) := (hr.stored _ c).mpr ⟨rfl, hc⟩
  have hinUse : s.consumerBitManager.InUse p := (hr.inUse p).mpr ⟨c, hstored⟩
  obtain ⟨-, hmax, havail, hvalid⟩ := ConsumerBitManager.freeConsumerBit_inUse hr.valid hinUse
  let tables : ChangeTracker C O I := { s with
    consumers := s.consumers.set p none
    consumerBitManager := (s.consumerBitManager.freeConsumerBit p).2
    cachedConsumerBitmap := clearBit s.cachedConsumerBitmap p }
  obtain ⟨hunready, hacked, hmk, hidle⟩ := removeFromReadyConsumers_spec (c := c)
    (hs.withTables (s.consumers.set p none) (s.consumerBitManager.freeConsumerBit p).2
      (clearBit s.cachedConsumerBitmap p) : Consistent ∅ tables)
  obtain ⟨hreset, hacked', hmk', hidle', howns⟩ := consumerResetChangeList_spec (c := c) hunready
  let t := (tables.removeFromReadyConsumers c).consumerResetChangeList c
  have htotal : Acked c tables t := hacked.trans hacked'
  have hidleC : Idle t c := by
    by_cases hm : (tables.removeFromReadyConsumers c).marker c = none
    · have heq : t = tables.removeFromReadyConsumers c := consumerResetChangeList_of_none hm
      rw [heq]
      exact hidle (hmk.symm.trans hm)
    · exact hidle' hm
  have heq : s.deregisterFromTracker c =
      t.modifyConsumer c fun k => { k with bitPosition := kInvalidBitPosition, marker := none } := by
    simp only [deregisterFromTracker, unregisterConsumer, hstored]
    rfl
  obtain ⟨hlinks, hfinal⟩ := hreset.modifyConsumer (c := c)
    (fun k => { k with bitPosition := kInvalidBitPosition, marker := none }) hidleC.1.symm rfl rfl
  have hinUse' : ∀ p', (s.consumerBitManager.freeConsumerBit p).2.InUse p' ↔
      s.consumerBitManager.InUse p' ∧ p' ≠ p := by
    intro p'
    rw [ConsumerBitManager.InUse, ConsumerBitManager.InUse, hmax, havail, not_or, and_assoc]
  have hconsumers : ∀ p' k, (s.consumers.set p none)[p']? = some (some k) ↔
      s.consumers[p']? = some (some k) ∧ p' ≠ p := by
    intro p' k
    by_cases hp : p' = p
    · subst hp
      rw [List.getElem?_set_self (List.getElem?_eq_some_iff.mp hstored).1]
      simp
    · rw [List.getElem?_set_ne (Ne.symm hp)]
      simp [hp]
  have htables : Registered (tables.modifyConsumer c fun k => { k with bitPosition := kInvalidBitPosition }) := by
    refine ⟨fun p' k => ?_, hvalid, hmax.trans hr.maxBits, fun p' => ?_, fun p' => ?_⟩
    · rw [bitPosition_modifyConsumer]
      change (s.consumers.set p none)[p']? = _ ↔ (if k = c then kInvalidBitPosition else s.bitPosition k) = p' ∧ _
      rw [hconsumers, hr.stored]
      by_cases hk : k = c
      · simp only [hk]
        constructor
        · rintro ⟨⟨rfl, -⟩, hne⟩
          exact absurd rfl hne
        · rintro ⟨rfl, hne⟩
          exact absurd rfl hne
      · simp only [hk, if_false]
        constructor
        · exact fun h => h.1
        · intro h
          refine ⟨h, fun hp => hk ?_⟩
          exact (hr.injective (c := c) (k := k) (by rw [h.1, hp]) hc).symm
    · change (s.consumerBitManager.freeConsumerBit p).2.InUse p' ↔ ∃ k, (s.consumers.set p none)[p']? = some (some k)
      simp only [hinUse', hconsumers, hr.inUse, exists_and_right]
    · change isBitSet (clearBit s.cachedConsumerBitmap p) p' = true ↔ (s.consumerBitManager.freeConsumerBit p).2.InUse p'
      rw [hinUse', isBitSet_clearBit, Bool.and_eq_true, hr.cached, Bool.not_eq_true', decide_eq_false_iff_not]
      exact and_congr_right fun _ => ne_comm
  rw [heq]
  refine ⟨hfinal, htables.moved htotal.toSameRegistration _ rfl, fun k => ?_, ?_, fun k hk => ?_, ?_, ?_, ?_, ?_⟩
  · rw [bitPosition_modifyConsumer, htotal.bitPosition]
    rfl
  · exact (idle_congr (hlinks.place c)).mpr hidleC
  · exact (idle_congr (hlinks.place k)).trans (htotal.idle k hk)
  · exact ⟨htotal.changeItem, htotal.completed⟩
  · exact htotal.cleared
  · rintro k hk j hj ⟨m, hm, hsuf⟩
    obtain ⟨m', hm', hsuf'⟩ := htotal.tracks k hk j hj ⟨m, hm, hsuf⟩
    exact ⟨m', by rw [hlinks.marker]; exact hm', hsuf'⟩
  · intro htr j
    have hbit := howns (fun j' howned => ?_) j
    · rw [owns, hacked'.bitPosition, hacked.bitPosition] at hbit
      exact hbit
    · have hbef : s.owns c j' = true := by
        rw [owns, hacked.bitPosition] at howned
        exact hacked.cleared j' _ howned
      obtain ⟨m, hm, hsuf⟩ := htr j' hbef
      refine ⟨m, hmk.trans hm, ?_⟩
      rw [(sameItems_removeFromReadyConsumers tables c).changeList]
      exact hsuf

theorem deregisterFromTracker_unregistered (hs : Consistent ∅ s) (hr : Registered s)
    (hc : s.bitPosition c = kInvalidBitPosition) (hidle : Idle s c) :
    Consistent ∅ (s.deregisterFromTracker c) ∧ SameItems s (s.deregisterFromTracker c) ∧
      SameLinks s (s.deregisterFromTracker c) := by
  have hunstored : ∀ k, s.consumers[s.bitPosition c]? ≠ some (some k) := by
    intro k hk
    exact ((hr.stored _ k).mp hk).2 hc
  have hsame : s.unregisterConsumer (s.bitPosition c) = s := by
    unfold unregisterConsumer
    split
    · rfl
    · rfl
    next k hk => exact absurd hk (hunstored k)
  rw [deregisterFromTracker, hsame]
  obtain ⟨hlinks, hfinal⟩ := hs.modifyConsumer (c := c)
    (fun k => { k with bitPosition := kInvalidBitPosition, marker := none }) hidle.1.symm rfl rfl
  exact ⟨hfinal, sameItems_modifyConsumer s c _ hc.symm, hlinks⟩

end

end FbossBgp.ChangeTracker
