import Mathlib.Data.List.Induction
import PathPolicy.Client.Channel
import PathPolicy.Daemon

/-!
A stream of frames says the same however it is cut. Each chunk is appended to the bytes left
over by the chunks before it, and the buffer is drained after each of them.
-/
namespace PathPolicy.Frame
variable {limit : Nat}

/-! ### The front of a longer buffer -/

theorem header_size (a b c d : UInt8) : header (size a b c d) = [a, b, c, d] := by
  have ha := a.toNat_lt
  have hb := b.toNat_lt
  have hc := c.toNat_lt
  have hd := d.toNat_lt
  simp only [header, size, List.cons.injEq, and_true, ← UInt8.toNat_inj, UInt8.toNat_ofNat']
  omega

theorem size_lt (a b c d : UInt8) : size a b c d < UInt32.size := by
  have ha := a.toNat_lt
  have hb := b.toNat_lt
  have hc := c.toNat_lt
  have hd := d.toNat_lt
  simp only [size, UInt32.size]
  omega

theorem front_eq_frame_iff {buffer body rest : Bytes} :
    front limit buffer = .frame body rest ↔
      buffer = header body.length ++ body ++ rest ∧ body.length ≤ limit ∧
        body.length < UInt32.size := by
  constructor
  · intro h
    match buffer with
    | [] | [_] | [_, _] | [_, _, _] => cases h
    | a :: b :: c :: d :: tail =>
      simp only [front] at h
      split at h
      · cases h
      · split at h
        · cases h
        next hlimit hlength =>
          cases h
          have hbody : (tail.take (size a b c d)).length = size a b c d := by
            rw [List.length_take]
            omega
          rw [hbody, header_size]
          exact ⟨by simp, Nat.le_of_not_lt hlimit, size_lt a b c d⟩
  · rintro ⟨rfl, hlimit, hsize⟩
    exact front_header_append body rest hlimit hsize

theorem front_eq_refused_iff {buffer : Bytes} {fault : Fault} :
    front limit buffer = .refused fault ↔
      ∃ n, limit < n ∧ n < UInt32.size ∧ header n <+: buffer ∧ fault = tooLong n limit := by
  constructor
  · intro h
    match buffer with
    | [] | [_] | [_, _] | [_, _, _] => cases h
    | a :: b :: c :: d :: tail =>
      simp only [front] at h
      split at h
      next hlimit =>
        cases h
        refine ⟨size a b c d, hlimit, size_lt a b c d, ?_, rfl⟩
        rw [header_size]
        exact ⟨tail, rfl⟩
      · split at h <;> cases h
  · rintro ⟨n, hlimit, hsize, ⟨tail, rfl⟩, rfl⟩
    simp [header, front, size_header hsize, hlimit]

theorem front_append_of_frame {buffer body rest : Bytes} (more : Bytes)
    (h : front limit buffer = .frame body rest) :
    front limit (buffer ++ more) = .frame body (rest ++ more) := by
  obtain ⟨rfl, hlimit, hsize⟩ := front_eq_frame_iff.mp h
  rw [List.append_assoc]
  exact front_header_append body (rest ++ more) hlimit hsize

theorem front_append_of_refused {buffer : Bytes} {fault : Fault} (more : Bytes)
    (h : front limit buffer = .refused fault) :
    front limit (buffer ++ more) = .refused fault := by
  obtain ⟨n, hlimit, hsize, hheader, rfl⟩ := front_eq_refused_iff.mp h
  exact front_eq_refused_iff.mpr
    ⟨n, hlimit, hsize, hheader.trans (List.prefix_append buffer more), rfl⟩

theorem eq_of_encode {body frame : Bytes} (h : encode limit body = .ok frame) :
    body.length ≤ limit ∧ body.length < UInt32.size ∧ frame = header body.length ++ body := by
  simp only [encode] at h
  split at h
  · cases h
  · split at h
    · cases h
    next hlimit hsize =>
      cases h
      exact ⟨Nat.le_of_not_lt hlimit, Nat.lt_of_not_le hsize, rfl⟩

/-! ### Draining a longer buffer -/

/-- The bytes that were drained: the bodies, each behind its length, and what is left over. -/
def Drained.bytes (s : Drained) : Bytes :=
  (s.bodies.map fun body => header body.length ++ body).flatten ++ s.buffer

theorem bytes_drain (limit : Nat) (buffer : Bytes) : (drain limit buffer).bytes = buffer := by
  induction buffer using drain.induct limit with
  | case1 buffer h => simp [drain_of_partially h, Drained.bytes]
  | case2 buffer fault h => simp [drain_of_refused h, Drained.bytes]
  | case3 buffer body rest h ih =>
    have hbuffer := (front_eq_frame_iff.mp h).1
    simp only [Drained.bytes] at ih
    simp only [drain_of_frame h, Drained.bytes, List.map_cons, List.flatten_cons]
    rw [List.append_assoc, ih, ← hbuffer]

theorem drain_append_of_going {buffer : Bytes} (more : Bytes)
    (hgoing : (drain limit buffer).stop = none) :
    drain limit (buffer ++ more) = (drain limit buffer).receive limit more := by
  induction buffer using drain.induct limit with
  | case1 buffer h => simp [drain_of_partially h, Drained.receive]
  | case2 buffer fault h => simp [drain_of_refused h] at hgoing
  | case3 buffer body rest h ih =>
    have hrest : (drain limit rest).stop = none := by
      rw [drain_of_frame h] at hgoing
      exact hgoing
    rw [drain_of_frame (front_append_of_frame more h), ih hrest, drain_of_frame h]
    simp [Drained.receive, hrest]

theorem drain_append_of_stopped {buffer : Bytes} {fault : Fault} (more : Bytes)
    (hstop : (drain limit buffer).stop = some fault) :
    drain limit (buffer ++ more) =
      { drain limit buffer with buffer := (drain limit buffer).buffer ++ more } := by
  induction buffer using drain.induct limit with
  | case1 buffer h => simp [drain_of_partially h] at hstop
  | case2 buffer fault' h =>
    rw [drain_of_refused h, drain_of_refused (front_append_of_refused more h)]
  | case3 buffer body rest h ih =>
    have hrest : (drain limit rest).stop = some fault := by
      rw [drain_of_frame h] at hstop
      exact hstop
    rw [drain_of_frame (front_append_of_frame more h), ih hrest, drain_of_frame h]

theorem stop_drain {buffer : Bytes} {fault : Fault}
    (hstop : (drain limit buffer).stop = some fault) :
    ∃ n, limit < n ∧ n < UInt32.size ∧ header n <+: (drain limit buffer).buffer ∧
      fault = tooLong n limit := by
  induction buffer using drain.induct limit with
  | case1 buffer h => simp [drain_of_partially h] at hstop
  | case2 buffer fault' h =>
    rw [drain_of_refused h] at hstop ⊢
    cases hstop
    exact front_eq_refused_iff.mp h
  | case3 buffer body rest h ih =>
    rw [drain_of_frame h] at hstop ⊢
    exact ih hstop

/-- The frames of some bodies, as an encoder with the limit makes them. -/
def Encoded (limit : Nat) : List Bytes → List Bytes → Prop :=
  List.Forall₂ fun body frame => encode limit body = .ok frame

theorem drain_flatten_of_encoded {encoderLimit : Nat} (hlimit : encoderLimit ≤ limit)
    {bodies frames : List Bytes} (h : Encoded encoderLimit bodies frames) :
    drain limit frames.flatten = ⟨bodies, [], none⟩ := by
  induction h with
  | nil => exact drain_of_partially rfl
  | @cons body frame bodies frames hframe _ ih =>
    obtain ⟨hlen, hsize, rfl⟩ := eq_of_encode hframe
    have hfront : front limit ((header body.length ++ body) ++ frames.flatten) =
        .frame body frames.flatten :=
      front_header_append body _ (Nat.le_trans hlen hlimit) hsize
    rw [List.flatten_cons, drain_of_frame hfront, ih]

/-! ### Chunk after chunk -/

/-- What the chunks of a stream come to when each is received in turn. -/
def received (limit : Nat) (chunks : List Bytes) : Drained :=
  chunks.foldl (Drained.receive limit) ⟨[], [], none⟩

theorem received_append_singleton (limit : Nat) (chunks : List Bytes) (chunk : Bytes) :
    received limit (chunks ++ [chunk]) = (received limit chunks).receive limit chunk := by
  simp [received]

theorem receive_of_stopped {s : Drained} {fault : Fault} (h : s.stop = some fault)
    (chunk : Bytes) : s.receive limit chunk = s := by
  cases s with
  | mk bodies buffer stop =>
    cases h
    rfl

theorem received_append_of_stopped {chunks : List Bytes} {fault : Fault}
    (h : (received limit chunks).stop = some fault) (more : List Bytes) :
    received limit (chunks ++ more) = received limit chunks := by
  induction more using List.reverseRecOn with
  | nil => rw [List.append_nil]
  | append_singleton more chunk ih =>
    rw [← List.append_assoc, received_append_singleton, ih, receive_of_stopped h]

/-- The chunks of a stream leave behind what the whole stream does, short of the bytes that
nobody read after the refusal. -/
theorem drain_flatten_eq (limit : Nat) (chunks : List Bytes) :
    ∃ unread, drain limit chunks.flatten =
        { received limit chunks with buffer := (received limit chunks).buffer ++ unread } ∧
      ((received limit chunks).stop = none → unread = []) := by
  -- on the last chunk, which is drained behind what the others left over
  induction chunks using List.reverseRecOn with
  | nil =>
    refine ⟨[], ?_, fun _ => rfl⟩
    rw [List.flatten_nil, drain_of_partially rfl]
    rfl
  | append_singleton chunks chunk ih =>
    obtain ⟨unread, hdrain, hunread⟩ := ih
    rw [received_append_singleton, List.flatten_append, List.flatten_singleton]
    cases hstop : (received limit chunks).stop with
    | none =>
      have hgoing : (drain limit chunks.flatten).stop = none := by
        rw [hdrain]
        exact hstop
      rw [hunread hstop, List.append_nil] at hdrain
      refine ⟨[], ?_, fun _ => rfl⟩
      rw [drain_append_of_going chunk hgoing, hdrain, List.append_nil]
    | some fault =>
      have hstopped : (drain limit chunks.flatten).stop = some fault := by
        rw [hdrain]
        exact hstop
      rw [receive_of_stopped hstop]
      refine ⟨unread ++ chunk, ?_, fun h => ?_⟩
      · rw [drain_append_of_stopped chunk hstopped, hdrain, List.append_assoc]
      · rw [hstop] at h
        cases h

theorem received_of_going {chunks : List Bytes} (h : (received limit chunks).stop = none) :
    received limit chunks = drain limit chunks.flatten := by
  obtain ⟨unread, hdrain, hunread⟩ := drain_flatten_eq limit chunks
  rw [hdrain, hunread h, List.append_nil]

theorem stop_received {chunks : List Bytes} {fault : Fault}
    (h : (received limit chunks).stop = some fault) :
    ∃ n, limit < n ∧ n < UInt32.size ∧ header n <+: (received limit chunks).buffer ∧
      fault = tooLong n limit := by
  induction chunks using List.reverseRecOn with
  | nil => cases h
  | append_singleton chunks chunk ih =>
    rw [received_append_singleton] at h ⊢
    cases hstop : (received limit chunks).stop with
    | some fault' =>
      rw [receive_of_stopped hstop] at h ⊢
      exact ih h
    | none =>
      simp only [Drained.receive, hstop] at h ⊢
      exact stop_drain h

theorem bytes_received_append_singleton {chunks : List Bytes}
    (h : (received limit chunks).stop = none) (chunk : Bytes) :
    (received limit (chunks ++ [chunk])).bytes = (chunks ++ [chunk]).flatten := by
  have hgoing : (drain limit chunks.flatten).stop = none := by
    rw [← received_of_going h]
    exact h
  rw [received_append_singleton, received_of_going h, ← drain_append_of_going chunk hgoing,
    bytes_drain]
  simp

/-- The bodies, the refusal and what is left over do not depend on the cut, and account for every
byte that was read. The two limits are those of the sender and of the reader. -/
theorem received_cut_independent (limit : Nat) (chunks : List Bytes) :
    (received limit chunks).bodies = (drain limit chunks.flatten).bodies ∧
    (received limit chunks).stop = (drain limit chunks.flatten).stop ∧
    ((received limit chunks).stop = none →
      (received limit chunks).buffer = (drain limit chunks.flatten).buffer ∧
      (received limit chunks).bytes = chunks.flatten ∧
      ∀ chunk, (received limit (chunks ++ [chunk])).bytes = (chunks ++ [chunk]).flatten) ∧
    (∀ fault, (received limit chunks).stop = some fault →
      fault.code = .badRequest ∧
      (∃ n, limit < n ∧ n < UInt32.size ∧ header n <+: (received limit chunks).buffer ∧
        fault = tooLong n limit) ∧
      ∀ more, received limit (chunks ++ more) = received limit chunks) ∧
    ∀ encoderLimit ≤ limit, ∀ bodies frames, Encoded encoderLimit bodies frames →
      frames.flatten = chunks.flatten → received limit chunks = ⟨bodies, [], none⟩ := by
  -- everything is read off the whole stream, which has only unread bytes more
  obtain ⟨unread, hdrain, -⟩ := drain_flatten_eq limit chunks
  have hbodies : (received limit chunks).bodies = (drain limit chunks.flatten).bodies := by
    rw [hdrain]
  have hstop : (received limit chunks).stop = (drain limit chunks.flatten).stop := by
    rw [hdrain]
  refine ⟨hbodies, hstop, ?_, ?_, ?_⟩
  · intro hgoing
    have heq := received_of_going hgoing
    refine ⟨by rw [heq], ?_, bytes_received_append_singleton hgoing⟩
    rw [heq, bytes_drain]
  · intro fault hfault
    obtain ⟨n, hn, hsize, hheader, rfl⟩ := stop_received hfault
    exact ⟨rfl, ⟨n, hn, hsize, hheader, rfl⟩, received_append_of_stopped hfault⟩
  · intro encoderLimit hlimit bodies frames hencoded hflatten
    have hframes := drain_flatten_of_encoded hlimit hencoded
    rw [hflatten] at hframes
    have hgoing : (received limit chunks).stop = none := by
      rw [hstop, hframes]
    rw [received_of_going hgoing, hframes]

def sampleChunks : List Bytes := [[0, 0], [0, 3, 7], [8, 9, 0, 0], [0, 0]]

theorem received_cut_independent_sample :
    Encoded 3 [[7, 8, 9], []] [[0, 0, 0, 3, 7, 8, 9], [0, 0, 0, 0]] ∧
    received 8 sampleChunks = ⟨[[7, 8, 9], []], [], none⟩ ∧
    (received 8 [[0, 0], [0, 9], [1]]).stop = some (tooLong 9 8) ∧
    received 8 ([[0, 0], [0, 9], [1]] ++ sampleChunks) = received 8 [[0, 0], [0, 9], [1]] := by
  have hencoded : Encoded 3 [[7, 8, 9], []] [[0, 0, 0, 3, 7, 8, 9], [0, 0, 0, 0]] :=
    .cons rfl (.cons rfl .nil)
  obtain ⟨-, -, -, -, hframes⟩ := received_cut_independent 8 sampleChunks
  obtain ⟨-, hstop, -, hrefused, -⟩ := received_cut_independent 8 [[0, 0], [0, 9], [1]]
  have hfront : front 8 [0, 0, 0, 9, 1] = .refused (tooLong 9 8) := by
    simp [front, size]
  have hfault : (received 8 [[0, 0], [0, 9], [1]]).stop = some (tooLong 9 8) := by
    rw [hstop]
    exact congrArg Drained.stop (drain_of_refused hfront)
  exact ⟨hencoded, hframes 3 (by decide) _ _ hencoded rfl, hfault,
    (hrefused _ hfault).2.2 sampleChunks⟩

/-! ### The two readers -/

theorem channel_received (limit : Nat) (chunks : List Bytes) (awaited : Option UInt64) :
    chunks.foldl (fun c chunk => (c.receive awaited chunk).2) (Client.Channel.opened limit) =
      { Client.Channel.opened limit with
        buffer := (received limit chunks).buffer
        closed := (received limit chunks).stop.isSome } := by
  induction chunks using List.reverseRecOn with
  | nil => rfl
  | append_singleton chunks chunk ih =>
    rw [List.foldl_append, ih, received_append_singleton]
    cases hstop : (received limit chunks).stop with
    | none => simp [Client.Channel.receive, Drained.receive, hstop, Client.Channel.opened]
    | some fault => simp [Client.Channel.receive, Drained.receive, hstop, Client.Channel.opened]

variable {μ : Type}

theorem answer_append (host : Script.Host μ) (limit : Nat) (bodies more : List Bytes)
    (d : Daemon.State μ) :
    d.answer host limit (bodies ++ more) =
      let (frames, d) := d.answer host limit bodies
      let (later, d) := d.answer host limit more
      (frames ++ later, d) := by
  induction bodies generalizing d with
  | nil => rfl
  | cons body bodies ih => simp [Daemon.State.answer, ih]

def serve (host : Script.Host μ) (limit : Nat) (s : Daemon.Connection × Daemon.State μ)
    (chunk : Bytes) : Daemon.Connection × Daemon.State μ :=
  (s.1.receive host limit chunk s.2).2

theorem connection_received (host : Script.Host μ) (limit : Nat) (chunks : List Bytes)
    (d : Daemon.State μ) :
    chunks.foldl (serve host limit) (.opened, d) =
      (⟨(received limit chunks).buffer, (received limit chunks).stop.isSome⟩,
        (d.answer host limit (received limit chunks).bodies).2) := by
  induction chunks using List.reverseRecOn with
  | nil => rfl
  | append_singleton chunks chunk ih =>
    rw [List.foldl_append, ih, received_append_singleton]
    cases hstop : (received limit chunks).stop with
    | none =>
      simp only [List.foldl_cons, List.foldl_nil, serve, Daemon.Connection.receive,
        Drained.receive, hstop, answer_append]
      cases (drain limit ((received limit chunks).buffer ++ chunk)).stop <;> rfl
    | some fault => simp [serve, Daemon.Connection.receive, Drained.receive, hstop]

end PathPolicy.Frame
