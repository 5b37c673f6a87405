import DistributedStorage.Files.Server
import DistributedStorage.Library.BigEndian

/-! The messages of the socket file system on their connection: eight bytes of length and the encrypted
message. Server and client have the same three functions. -/

namespace DistributedStorage.Files

open Library

variable {M : Type}

/-- What `pickle` and `cipher` do. The cipher salts each message, with the number of the call here; a decoder
that raises gives `none`. -/
structure Codec (M : Type) where
  pickle : M → FileData
  unpickle : FileData → Option M
  encrypt : ℕ → FileData → FileData
  decrypt : FileData → Option FileData

structure Codec.Lawful (c : Codec M) : Prop where
  unpickle_pickle : ∀ m, c.unpickle (c.pickle m) = some m
  decrypt_encrypt : ∀ k x, c.decrypt (c.encrypt k x) = some x
  encrypt_ne_nil : ∀ k x, c.encrypt k x ≠ []

/-- `struct.pack('!Q', n)`, which raises where eight bytes do not hold `n`. -/
def packLength (n : ℕ) : Option FileData :=
  if n < 2 ^ 64 then some (bigEndian 8 n) else none

/-- The bytes `send_msg` hands to the socket, in its `k`-th call. -/
def Codec.sendMsg (c : Codec M) (k : ℕ) (m : M) : Option FileData :=
  let encrypted := c.encrypt k (c.pickle m)
  (packLength encrypted.length).map fun length => length ++ encrypted

/-- The frames of a list of messages, from the `k`-th call on. -/
def Codec.sendAll (c : Codec M) : ℕ → List M → Option (List FileData)
  | _, [] => some []
  | k, m :: ms => (c.sendMsg k m).bind fun frame => (c.sendAll (k + 1) ms).map fun frames => frame :: frames

/-- The end of a connection that reads: what is still to come, and how often `recv` has been called. -/
structure Socket where
  stream : FileData
  calls : ℕ

/-- `recv` gives some bytes, at most `n`, and none only at the end of the stream. How many is up to the
network. -/
def Socket.recv (network : ℕ → ℕ) (sock : Socket) (n : ℕ) : FileData × Socket :=
  let size := min (network sock.calls + 1) n
  (sock.stream.take size, ⟨sock.stream.drop size, sock.calls + 1⟩)

/-- The loop of `recvall`, with what it has read so far. -/
def recvLoop (network : ℕ → ℕ) (n : ℕ) (data : FileData) (sock : Socket) : Option FileData × Socket :=
  if _hlt : data.length < n then
    let out := sock.recv network (n - data.length)
    if _hempty : out.1 = [] then (none, out.2) else recvLoop network n (data ++ out.1) out.2
  else (some data, sock)
termination_by n - data.length
decreasing_by
  have hpos : 0 < out.1.length := List.length_pos_iff.mpr _hempty
  change n - (data ++ out.1).length < n - data.length
  rw [List.length_append]
  omega

def recvall (network : ℕ → ℕ) (n : ℕ) (sock : Socket) : Option FileData × Socket :=
  recvLoop network n [] sock

/-- How a call of `recv_msg` ends: it returns a message or `None`, or a decoder raises. -/
inductive Received (M : Type)
  | message (m : M)
  | nothing
  | raises

def Codec.recvMsg (c : Codec M) (network : ℕ → ℕ) (sock : Socket) : Received M × Socket :=
  match recvall network 8 sock with
  | (none, sock) => (.nothing, sock)
  | (some raw, sock) =>
    if raw = [] then (.nothing, sock)
    else
      match recvall network (ofBigEndian raw) sock with
      | (none, sock) => (.nothing, sock)
      | (some encrypted, sock) =>
        if encrypted = [] then (.nothing, sock)
        else
          match (c.decrypt encrypted).bind c.unpickle with
          | none => (.raises, sock)
          | some m => (.message m, sock)

/-- What as many calls of `recv_msg` as asked for return, one after the other. -/
def Codec.receive (c : Codec M) (network : ℕ → ℕ) : ℕ → Socket → List (Received M)
  | 0, _ => []
  | calls + 1, sock =>
    let out := c.recvMsg network sock
    out.1 :: c.receive network calls out.2

variable {c : Codec M} {network : ℕ → ℕ} {sock : Socket}

/-- A packet is the beginning of the stream, and it is empty only at the end. -/
lemma Socket.recv_cases (network : ℕ → ℕ) (sock : Socket) {n : ℕ} (hn : 0 < n) :
    ∃ size, 0 < size ∧ size ≤ n ∧
      sock.recv network n = (sock.stream.take size, ⟨sock.stream.drop size, sock.calls + 1⟩) :=
  ⟨min (network sock.calls + 1) n, by omega, by omega, rfl⟩

/-- The packets that `recvall` has read add up to the bytes it was asked for, if there are so many. -/
lemma recvLoop_eq (network : ℕ → ℕ) {n m : ℕ} (data : FileData) (sock : Socket)
    (hd : data.length + m = n) : ∃ calls, recvLoop network n data sock =
      if m ≤ sock.stream.length then (some (data ++ sock.stream.take m), ⟨sock.stream.drop m, calls⟩)
      else (none, ⟨[], calls⟩) := by
  induction m using Nat.strong_induction_on generalizing data sock with
  | _ m ih =>
    rw [recvLoop]
    rcases Nat.eq_zero_or_pos m with rfl | hm
    · exact ⟨sock.calls, by simp [show ¬ data.length < n by omega]⟩
    · obtain ⟨size, hpos, hle, hrecv⟩ := sock.recv_cases network (n := n - data.length) (by omega)
      rw [dif_pos (by omega), hrecv]
      by_cases hend : sock.stream = []
      · refine ⟨sock.calls + 1, ?_⟩
        simp [hend, hm.ne']
      · have hpacket : sock.stream.take size ≠ [] := by
          simp [hend, hpos.ne']
        rw [dif_neg hpacket]
        by_cases hshort : sock.stream.length < size
        · -- the rest of the stream is in this packet, and it is too short
          have hlt : m - sock.stream.length < m := by
            have := List.length_pos_iff.mpr hend
            omega
          obtain ⟨calls, hc⟩ := ih _ hlt (data ++ sock.stream.take size)
            ⟨sock.stream.drop size, sock.calls + 1⟩ (by rw [List.length_append, List.length_take]; omega)
          refine ⟨calls, hc.trans ?_⟩
          rw [if_neg (by simp; omega), if_neg (by omega)]
        · obtain ⟨calls, hc⟩ := ih (m - size) (by omega) (data ++ sock.stream.take size)
            ⟨sock.stream.drop size, sock.calls + 1⟩ (by rw [List.length_append, List.length_take]; omega)
          have hsplit : m = size + (m - size) := by omega
          refine ⟨calls, hc.trans ?_⟩
          simp only [List.length_drop, List.drop_drop, List.append_assoc]
          by_cases hall : m ≤ sock.stream.length
          · rw [if_pos (by omega), if_pos hall, ← List.take_add, ← hsplit]
          · rw [if_neg (by omega), if_neg hall]

lemma recvall_eq (network : ℕ → ℕ) (n : ℕ) (sock : Socket) : ∃ calls, recvall network n sock =
    if n ≤ sock.stream.length then (some (sock.stream.take n), ⟨sock.stream.drop n, calls⟩)
    else (none, ⟨[], calls⟩) := by
  obtain ⟨calls, h⟩ := recvLoop_eq network (n := n) (m := n) [] sock (by simp)
  exact ⟨calls, by rw [recvall, h, List.nil_append]⟩

/-- A frame: its length fits into eight bytes, and it is longer than these. -/
lemma Codec.sendMsg_eq {k : ℕ} {m : M} {frame : FileData} (h : c.sendMsg k m = some frame) :
    ∃ encrypted, encrypted = c.encrypt k (c.pickle m) ∧ encrypted.length < 256 ^ 8 ∧
      frame = bigEndian 8 encrypted.length ++ encrypted := by
  simp only [sendMsg, packLength] at h
  split_ifs at h with hlt
  · obtain rfl := Option.some.inj h
    exact ⟨_, rfl, by norm_num at hlt ⊢; exact hlt, rfl⟩
  · cases h

/-- A frame that has arrived as a whole is taken off the stream and is the message. -/
lemma Codec.recvMsg_frame (hc : c.Lawful) {k : ℕ} {m : M} {frame rest : FileData}
    (h : c.sendMsg k m = some frame) (hs : sock.stream = frame ++ rest) :
    ∃ calls, c.recvMsg network sock = (.message m, ⟨rest, calls⟩) := by
  obtain ⟨encrypted, rfl, hlen, rfl⟩ := sendMsg_eq h
  generalize henc : c.encrypt k (c.pickle m) = encrypted at hlen hs
  have hne : encrypted ≠ [] := henc ▸ hc.encrypt_ne_nil k _
  obtain ⟨calls, hhead⟩ := recvall_eq network 8 sock
  rw [hs, List.append_assoc, if_pos (by simp), List.take_left' (by simp), List.drop_left' (by simp)] at hhead
  obtain ⟨calls', hbody⟩ := recvall_eq network encrypted.length ⟨encrypted ++ rest, calls⟩
  rw [if_pos (by simp), List.take_left, List.drop_left] at hbody
  have hraw : bigEndian 8 encrypted.length ≠ [] := fun hnil => by simpa using congrArg List.length hnil
  have hmsg : (c.decrypt encrypted).bind c.unpickle = some m := by
    rw [← henc, hc.decrypt_encrypt, Option.bind_some, hc.unpickle_pickle]
  refine ⟨calls', ?_⟩
  simp only [recvMsg, hhead, if_neg hraw, ofBigEndian_bigEndian hlen, hbody, if_neg hne, hmsg]

/-- A frame that has not arrived as a whole is lost, with all there is of it. -/
lemma Codec.recvMsg_cut {k : ℕ} {m : M} {frame : FileData} {p : ℕ} (h : c.sendMsg k m = some frame)
    (hs : sock.stream = frame.take p) (hp : p < frame.length) :
    ∃ calls, c.recvMsg network sock = (.nothing, ⟨[], calls⟩) := by
  obtain ⟨encrypted, -, hlen, rfl⟩ := sendMsg_eq h
  rw [List.length_append, bigEndian_length] at hp
  obtain ⟨calls, hhead⟩ := recvall_eq network 8 sock
  by_cases hlong : 8 ≤ p
  · rw [hs, List.take_append, bigEndian_length, List.take_of_length_le (by simpa using hlong),
      if_pos (by simp), List.take_left' (by simp), List.drop_left' (by simp)] at hhead
    obtain ⟨calls', hbody⟩ := recvall_eq network encrypted.length ⟨encrypted.take (p - 8), calls⟩
    rw [if_neg (by simp; omega)] at hbody
    have hraw : bigEndian 8 encrypted.length ≠ [] := fun hnil => by simpa using congrArg List.length hnil
    refine ⟨calls', ?_⟩
    simp only [recvMsg, hhead, if_neg hraw, ofBigEndian_bigEndian hlen, hbody]
  · rw [hs, if_neg (by simp; omega)] at hhead
    exact ⟨calls, by simp only [recvMsg, hhead]⟩

lemma Codec.receive_end (calls : ℕ) (hs : sock.stream = []) :
    c.receive network calls sock = List.replicate calls .nothing := by
  induction calls generalizing sock with
  | zero => rfl
  | succ calls ih =>
    obtain ⟨n, hhead⟩ := recvall_eq network 8 sock
    rw [hs, if_neg (by simp)] at hhead
    have hmsg : c.recvMsg network sock = (.nothing, ⟨[], n⟩) := by simp only [recvMsg, hhead]
    rw [receive, hmsg, List.replicate_succ]
    exact congrArg _ (ih rfl)

/-- However the network splits the stream and wherever it ends, the calls of `recv_msg` return the messages
whose frames have arrived as a whole, each as it was sent and in order, and then `None` only. -/
theorem Codec.receive_exact (hc : c.Lawful) (network : ℕ → ℕ) {k : ℕ} {ms : List M} {frames : List FileData}
    (h : c.sendAll k ms = some frames) (p n : ℕ) :
    ∃ j, j ≤ ms.length ∧ (frames.take j).flatten.length ≤ p ∧
      (j < ms.length → p < (frames.take (j + 1)).flatten.length) ∧
      ∀ more, c.receive network (j + more) ⟨frames.flatten.take p, n⟩ =
        (ms.take j).map .message ++ List.replicate more .nothing := by
  induction ms generalizing k frames p n with
  | nil =>
    obtain rfl := Option.some.inj h
    refine ⟨0, le_rfl, Nat.zero_le p, fun hlt => absurd hlt (Nat.lt_irrefl 0), fun more => ?_⟩
    rw [Nat.zero_add]
    exact receive_end more (by simp)
  | cons m ms ih =>
    obtain ⟨frame, hframe, hrest⟩ := Option.bind_eq_some_iff.mp h
    obtain ⟨frames, hframes, rfl⟩ := Option.map_eq_some_iff.mp hrest
    by_cases hp : frame.length ≤ p
    · -- the first frame is there, and the rest is a stream of its own
      have hstream : (frame :: frames).flatten.take p = frame ++ frames.flatten.take (p - frame.length) := by
        rw [List.flatten_cons, List.take_append, List.take_of_length_le hp]
      obtain ⟨calls, hmsg⟩ : ∃ calls, c.recvMsg network ⟨(frame :: frames).flatten.take p, n⟩ =
          (.message m, ⟨frames.flatten.take (p - frame.length), calls⟩) := recvMsg_frame hc hframe hstream
      obtain ⟨j, hj, hle, hlt, hall⟩ := ih hframes (p - frame.length) calls
      refine ⟨j + 1, Nat.succ_le_succ hj, ?_, fun hlt' => ?_, fun more => ?_⟩
      · rw [List.take_succ_cons, List.flatten_cons, List.length_append]
        omega
      · have hnext := hlt (Nat.lt_of_succ_lt_succ hlt')
        rw [List.take_succ_cons, List.flatten_cons, List.length_append]
        omega
      · rw [show j + 1 + more = j + more + 1 by omega, receive, hmsg, List.take_succ_cons, List.map_cons,
          List.cons_append, hall]
    · have hcut : (frame :: frames).flatten.take p = frame.take p := by
        rw [List.flatten_cons, List.take_append_of_le_length (by omega)]
      refine ⟨0, Nat.zero_le _, Nat.zero_le p, fun _ => by simpa using not_le.mp hp, fun more => ?_⟩
      rw [Nat.zero_add]
      cases more with
      | zero => rfl
      | succ more =>
        obtain ⟨calls, hmsg⟩ : ∃ calls, c.recvMsg network ⟨(frame :: frames).flatten.take p, n⟩ =
            (.nothing, ⟨[], calls⟩) := recvMsg_cut hframe hcut (not_le.mp hp)
        rw [receive, hmsg]
        change Received.nothing :: _ = _
        rw [receive_end more rfl]
        rfl

/-- Messages that are bytes, with a salt in front of each. -/
def salted : Codec FileData where
  pickle m := m
  unpickle raw := some raw
  encrypt k x := UInt8.ofNat k :: x
  decrypt y := match y with
    | [] => none
    | _ :: x => some x

lemma salted_lawful : salted.Lawful := ⟨fun _ => rfl, fun _ _ => rfl, fun _ _ => List.cons_ne_nil _ _⟩

/-- Two messages of two bytes in packets of three at most, cut inside the second. -/
theorem Codec.receive_exact_cut : ∃ frames, salted.sendAll 0 [[1, 2], [3, 4]] = some frames ∧
    ∀ more, salted.receive (fun _ => 2) (1 + more) ⟨frames.flatten.take 20, 0⟩ =
      .message [1, 2] :: List.replicate more .nothing := by
  obtain ⟨frames, hframes, hlen⟩ : ∃ frames, salted.sendAll 0 [[1, 2], [3, 4]] = some frames ∧
      frames.map List.length = [11, 11] := by decide
  obtain ⟨j, hj, hle, hlt, hall⟩ := Codec.receive_exact salted_lawful (fun _ => 2) hframes 20 0
  have hcount (i : ℕ) : (frames.take i).flatten.length = (([11, 11] : List ℕ).take i).sum := by
    rw [List.length_flatten, List.map_take, hlen]
  rw [hcount] at hle hlt
  have htwo : j ≤ 2 := hj
  refine ⟨frames, hframes, ?_⟩
  interval_cases j
  · exact absurd (hlt (by decide)) (by decide)
  · exact hall
  · exact absurd hle (by decide)

end DistributedStorage.Files
