import Mathlib.Data.List.Basic

/-! Messages cut out of a stream that arrives in chunks. A message is handled as soon as it is complete, and
its handler is given the whole buffer, so that the result may depend on what else has arrived. Where it does
not, the way the stream is cut does not matter. -/

namespace Chunks

open List

/-- What stands at the front of a buffer. -/
inductive Front (ε : Type)
  | incomplete
  | broken (e : ε)
  | message (length : Nat)

/-- The next state, what the handler reported, and the exception that left it, if any. -/
structure Turn (σ β ε : Type) where
  state : σ
  entries : List (Except ε β)
  escaped : Option ε

/-- What stands at the front is told from the message itself: more input does not change it, nor less. -/
structure Machine (α σ β ε : Type) where
  front : List α → Front ε
  handle : σ → List α → Turn σ β ε
  front_nil : front [] = .incomplete
  front_append : ∀ {buf}, front buf ≠ .incomplete → ∀ more, front (buf ++ more) = front buf
  front_message : ∀ {buf n}, front buf = .message n → 0 < n ∧ n ≤ buf.length
  front_take : ∀ {buf n}, front buf = .message n → front (buf.take n) = .message n

/-- What has come of the input so far: the input that is left and all that was reported. -/
structure Session (α σ β ε : Type) where
  state : σ
  buf : List α
  entries : List (Except ε β)
  escaped : Option ε

variable {α σ β ε : Type}

/-- Something was reported before. -/
def Session.after (entries : List (Except ε β)) (session : Session α σ β ε) : Session α σ β ε :=
  { session with entries := entries ++ session.entries }

def upToError : List (Except ε β) → List (Except ε β)
  | [] => []
  | .error e :: _ => [.error e]
  | .ok b :: entries => .ok b :: upToError entries

theorem upToError_append (front back : List (Except ε β)) :
    upToError (front ++ back) = upToError (front ++ upToError back) := by
  induction front with
  | nil =>
    induction back with
    | nil => rfl
    | cons entry back ih =>
      cases entry with
      | error e => rfl
      | ok b => exact congrArg (Except.ok b :: ·) ih
  | cons entry front ih =>
    cases entry with
    | error e => rfl
    | ok b => exact congrArg (Except.ok b :: ·) ih

variable (M : Machine α σ β ε)

/-- Messages are handled while one is complete; an escaping exception ends the loop with the buffer as it is. -/
def drain : Nat → σ → List α → Session α σ β ε
  | 0, s, buf => ⟨s, buf, [], none⟩
  | fuel + 1, s, buf =>
    match M.front buf with
    | .incomplete => ⟨s, buf, [], none⟩
    | .broken e => ⟨s, buf, [.error e], none⟩
    | .message n =>
      let turn := M.handle s buf
      match turn.escaped with
      | some e => ⟨turn.state, buf, turn.entries, some e⟩
      | none => (drain fuel turn.state (buf.drop n)).after turn.entries

/-- Everything in the buffer that can be handled. -/
def process (s : σ) (buf : List α) : Session α σ β ε := drain M (buf.length + 1) s buf

/-- The chunks of a stream, one after the other, until an exception escapes. -/
def receive : σ → List α → List (List α) → Session α σ β ε
  | s, buf, [] => ⟨s, buf, [], none⟩
  | s, buf, chunk :: chunks =>
    let session := process M s (buf ++ chunk)
    match session.escaped with
    | some _ => session
    | none => (receive session.state session.buf chunks).after session.entries

variable {M} {s : σ} {buf : List α} {n : Nat} {e : ε}

theorem length_drop_lt (h : M.front buf = .message n) : (buf.drop n).length < buf.length := by
  obtain ⟨hpos, hle⟩ := M.front_message h
  rw [length_drop]
  omega

theorem drain_congr {m k : Nat} (hm : buf.length < m) (hk : buf.length < k) : drain M m s buf = drain M k s buf := by
  induction m generalizing k s buf with
  | zero => exact absurd hm (Nat.not_lt_zero _)
  | succ m ih =>
    obtain ⟨k, rfl⟩ : ∃ j, k = j + 1 := ⟨k - 1, by omega⟩
    rw [drain, drain]
    cases hfront : M.front buf with
    | incomplete => rfl
    | broken e => rfl
    | message n =>
      have hless := length_drop_lt hfront
      dsimp only
      cases (M.handle s buf).escaped with
      | some e => rfl
      | none => exact congrArg (Session.after _) (ih (by omega) (by omega))

theorem process_of_incomplete (h : M.front buf = .incomplete) : process M s buf = ⟨s, buf, [], none⟩ := by
  rw [process, drain, h]

theorem process_of_broken (h : M.front buf = .broken e) : process M s buf = ⟨s, buf, [.error e], none⟩ := by
  rw [process, drain, h]

theorem process_of_escaped (h : M.front buf = .message n) (hesc : (M.handle s buf).escaped = some e) :
    process M s buf = ⟨(M.handle s buf).state, buf, (M.handle s buf).entries, some e⟩ := by
  rw [process, drain, h]
  dsimp only
  rw [hesc]

theorem process_of_message (h : M.front buf = .message n) (hesc : (M.handle s buf).escaped = none) :
    process M s buf = (process M (M.handle s buf).state (buf.drop n)).after (M.handle s buf).entries := by
  have hless := length_drop_lt h
  rw [process, drain, h]
  dsimp only
  rw [hesc]
  rw [process, drain_congr hless (Nat.lt_succ_self _)]

variable (M) in
/-- The buffer is processed, and then the chunks that are still to come. -/
def resume (s : σ) (buf : List α) (chunks : List (List α)) : Session α σ β ε :=
  match (process M s buf).escaped with
  | some _ => process M s buf
  | none => (receive M (process M s buf).state (process M s buf).buf chunks).after (process M s buf).entries

theorem receive_cons (s : σ) (buf chunk : List α) (chunks : List (List α)) :
    receive M s buf (chunk :: chunks) = resume M s (buf ++ chunk) chunks := rfl

theorem resume_of_incomplete (h : M.front buf = .incomplete) (chunks : List (List α)) :
    resume M s buf chunks = receive M s buf chunks := by
  rw [resume, process_of_incomplete h]
  rfl

theorem resume_of_message (h : M.front buf = .message n) (hesc : (M.handle s buf).escaped = none)
    (chunks : List (List α)) : (resume M s buf chunks).entries =
      (M.handle s buf).entries ++ (resume M (M.handle s buf).state (buf.drop n) chunks).entries := by
  rw [resume, process_of_message h hesc, resume]
  generalize process M (M.handle s buf).state (buf.drop n) = session
  cases hnext : session.escaped with
  | some e =>
    simp only [Session.after, hnext]
  | none =>
    simp only [Session.after, hnext, append_assoc]

section

variable {P : List α → Prop} {stream : List α} {rest : List α} {chunks : List (List α)}

/-- Every message of the stream that something follows satisfies `P`. -/
inductive Contained (M : Machine α σ β ε) (P : List α → Prop) : List α → Prop
  | stop {stream : List α} : (∀ n, M.front stream ≠ .message n) → Contained M P stream
  | next {stream : List α} {n : Nat} : M.front stream = .message n → (stream.drop n ≠ [] → P (stream.take n)) →
      Contained M P (stream.drop n) → Contained M P stream

/-- What stands at the front of a part of the stream, once it is known, stands at the front of the whole. -/
theorem front_eq_of_append (hfront : M.front buf ≠ .incomplete) (h : buf ++ rest = stream) :
    M.front buf = M.front stream := by
  rw [← h, M.front_append hfront]

theorem front_eq_incomplete (hinc : M.front stream = .incomplete) (h : buf ++ rest = stream) :
    M.front buf = .incomplete := by
  by_contra hknown
  exact hknown ((front_eq_of_append hknown h).trans hinc)

theorem receive_of_incomplete (hinc : M.front stream = .incomplete)
    (h : buf ++ chunks.flatten = stream) : (receive M s buf chunks).entries = [] := by
  induction chunks generalizing buf with
  | nil => rfl
  | cons chunk chunks ih =>
    have hnext : (buf ++ chunk) ++ chunks.flatten = stream := by rw [← h, flatten_cons, append_assoc]
    rw [receive_cons, resume_of_incomplete (front_eq_incomplete hinc hnext)]
    exact ih hnext

/-- Chunks are added until something can be said about the front of the stream. -/
theorem upToError_resume_of_known {out : List (Except ε β)}
    (hknown : ∀ buf chunks, buf ++ chunks.flatten = stream → M.front buf = M.front stream →
      upToError (resume M s buf chunks).entries = out)
    (h : buf ++ chunks.flatten = stream) : upToError (resume M s buf chunks).entries = out := by
  induction chunks generalizing buf with
  | nil =>
    refine hknown buf [] h ?_
    rw [← h, flatten_nil, append_nil]
  | cons chunk chunks ih =>
    by_cases hfront : M.front buf = .incomplete
    · rw [resume_of_incomplete hfront]
      exact ih (by rw [← h, flatten_cons, append_assoc])
    · exact hknown buf (chunk :: chunks) h (front_eq_of_append hfront h)

variable (hP : ∀ m, M.front m = .message m.length → P m → ∀ s more, M.handle s (m ++ more) = M.handle s m)

include hP

/-- A message at the front of what has arrived is handled as if it had arrived alone. -/
theorem handle_eq_take (hfront : M.front buf = .message n) (h : buf ++ rest = stream)
    (hcontained : stream.drop n ≠ [] → P (stream.take n)) : M.handle s buf = M.handle s (stream.take n) := by
  have hle := (M.front_message hfront).2
  have htake : stream.take n = buf.take n := by rw [← h, take_append_of_le_length hle]
  by_cases hdrop : buf.drop n = []
  · rw [htake, take_of_length_le (drop_eq_nil_iff.mp hdrop)]
  · have hmore : stream.drop n ≠ [] := by
      rw [← h, drop_append_of_le_length hle]
      exact append_ne_nil_of_left_ne_nil hdrop rest
    have hmsg : M.front (stream.take n) = .message (stream.take n).length := by
      rw [htake, M.front_take hfront, length_take_of_le hle]
    rw [← hP _ hmsg (hcontained hmore) s (buf.drop n), htake, take_append_drop]

/-- Every way of cutting a contained stream gives the same entries up to the first error. -/
theorem Contained.exists_entries (h : Contained M P stream) (s : σ) :
    ∃ out, ∀ buf chunks, buf ++ chunks.flatten = stream → upToError (resume M s buf chunks).entries = out := by
  induction h generalizing s with
  | @stop stream hstop =>
    cases hfront : M.front stream with
    | message n => exact absurd hfront (hstop n)
    | incomplete =>
      refine ⟨[], fun buf chunks happend => ?_⟩
      rw [resume_of_incomplete (front_eq_incomplete hfront happend), receive_of_incomplete hfront happend]
      rfl
    | broken e =>
      refine ⟨[.error e], fun buf chunks happend => ?_⟩
      refine upToError_resume_of_known (fun buf' chunks' _ hknown => ?_) happend
      rw [resume, process_of_broken (hknown.trans hfront)]
      rfl
  | @next stream n hfront hcontained _ ih =>
    cases hesc : (M.handle s (stream.take n)).escaped with
    | some e =>
      refine ⟨upToError (M.handle s (stream.take n)).entries, fun buf chunks happend => ?_⟩
      refine upToError_resume_of_known (fun buf' chunks' happend' hknown => ?_) happend
      have hmsg := hknown.trans hfront
      have hhandle := handle_eq_take hP (s := s) hmsg happend' hcontained
      rw [resume, process_of_escaped hmsg (by rw [hhandle, hesc]), hhandle]
    | none =>
      obtain ⟨out, hout⟩ := ih (M.handle s (stream.take n)).state
      refine ⟨upToError ((M.handle s (stream.take n)).entries ++ out), fun buf chunks happend => ?_⟩
      refine upToError_resume_of_known (fun buf' chunks' happend' hknown => ?_) happend
      have hmsg := hknown.trans hfront
      have hhandle := handle_eq_take hP (s := s) hmsg happend' hcontained
      have hrest : buf'.drop n ++ chunks'.flatten = stream.drop n := by
        rw [← happend', drop_append_of_le_length (M.front_message hmsg).2]
      rw [resume_of_message hmsg (by rw [hhandle, hesc]), hhandle, upToError_append, hout _ _ hrest]

theorem Contained.receive_eq (h : Contained M P stream) (s : σ) {chunks' : List (List α)}
    (hchunks : chunks.flatten = stream) (hchunks' : chunks'.flatten = stream) :
    upToError (receive M s [] chunks).entries = upToError (receive M s [] chunks').entries := by
  obtain ⟨out, hout⟩ := h.exists_entries hP s
  rw [← resume_of_incomplete M.front_nil, ← resume_of_incomplete M.front_nil, hout [] chunks hchunks,
    hout [] chunks' hchunks']

end

end Chunks
