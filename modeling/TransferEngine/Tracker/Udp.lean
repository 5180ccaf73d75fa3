import TransferEngine.Tracker.Fallback
import TransferEngine.Tracker.Peers

/-!
# The exchange with a UDP tracker

A UDP tracker answers a request to connect with a number, and an announcement that comes with this
number with its peers (`TransferEngine.UdpTracker`). Datagrams may be lost on either way, and
others may arrive in their place: answers to requests of the past, or to somebody else. The client
knows its answers by the transaction number it draws for each attempt.

So if no stray datagram hits the number of an attempt (`TransferEngine.TrackerClient.Reaches`),
the client gets exactly what the tracker answers to its arguments, as soon as one attempt of three
comes through in each of the two exchanges, and an exception otherwise
(`TransferEngine.TrackerClient.announceUdp_reaches`).
-/

namespace TransferEngine

open Bytes TrackerClient

/-! ### The tracker -/

/-- **What a UDP tracker reads** off an announcement. -/
structure Announcement where
  /-- The torrent. -/
  infoHash : List UInt8
  /-- The identifier of the peer. -/
  peerId : List UInt8
  /-- Bytes downloaded. -/
  downloaded : UInt64
  /-- Bytes left. -/
  left : UInt64
  /-- Bytes uploaded. -/
  uploaded : UInt64
  /-- The number of the event. -/
  event : UInt32
  /-- The address of the peer, if it is not that of the datagram. -/
  ip : UInt32
  /-- A key of the peer. -/
  key : UInt32
  /-- The number of peers wanted. -/
  numWant : UInt32
  /-- The port of the peer. -/
  port : UInt16
  deriving DecidableEq

/-- An announcement on the wire, behind the 16 bytes that every request starts with. -/
def Announcement.read (request : List UInt8) : Announcement where
  infoHash := (request.drop 16).take 20
  peerId := (request.drop 36).take 20
  downloaded := .ofNat (wordAt request 56 8)
  left := .ofNat (wordAt request 64 8)
  uploaded := .ofNat (wordAt request 72 8)
  event := .ofNat (wordAt request 80 4)
  ip := .ofNat (wordAt request 84 4)
  key := .ofNat (wordAt request 88 4)
  numWant := .ofNat (wordAt request 92 4)
  port := .ofNat (wordAt request 96 2)

/-- The answer to an announcement. It fits the buffer of the client. -/
structure UdpAnswer where
  /-- Seconds to the next announcement. -/
  interval : UInt32
  /-- The number of leechers. -/
  leechers : UInt32
  /-- The number of seeders. -/
  seeders : UInt32
  /-- The peers. -/
  peers : List Ipv4Peer
  length_peers : 20 + 6 * peers.length ≤ bufferSize

/-- What the client is to make of the answer. -/
def UdpAnswer.response (a : UdpAnswer) : TrackerResponse where
  interval := a.interval.toNat
  complete := a.seeders.toNat
  incomplete := a.leechers.toNat
  peers := a.peers.map fun p => { toAddress := p.address }

/-- **A UDP tracker**: the number it gives to the client, and its answers. -/
structure UdpTracker where
  /-- The connection number. -/
  connectionId : UInt64
  /-- The answer to an announcement. -/
  respond : Announcement → UdpAnswer

namespace UdpTracker

/-- The answer to a request to connect. -/
def answerConnect (t : UdpTracker) (request : List UInt8) : Option (List UInt8) :=
  if request.length = 16 ∧ wordAt request 0 8 = 0x41727101980 ∧ wordAt request 8 4 = 0 then
    some (uint32Bytes 0 ++ (request.drop 12).take 4 ++ uint64Bytes t.connectionId)
  else none

/-- The answer to an announcement, which has to come with the connection number. -/
def answerAnnounce (t : UdpTracker) (request : List UInt8) : Option (List UInt8) :=
  if request.length = 98 ∧ wordAt request 0 8 = t.connectionId.toNat ∧
      wordAt request 8 4 = 1 then
    let a := t.respond (.read request)
    some (uint32Bytes 1 ++ (request.drop 12).take 4 ++ uint32Bytes a.interval ++
      uint32Bytes a.leechers ++ uint32Bytes a.seeders ++ compact a.peers)
  else none

end UdpTracker

/-! ### Datagrams that do not count -/

/-- **An attempt that comes to nothing**: a datagram is lost, or the one that arrives is too short
or has another transaction number. -/
def Exchange.IsLost (e : Exchange) (transactionId : UInt32) (size : ℕ) : Prop :=
  match e with
  | .setsockoptFails _ => False
  | .sendFails => True
  | .recvFails => True
  | .received datagram => (datagram.take bufferSize).length < size ∨
      wordAt (datagram.take bufferSize) 4 4 ≠ transactionId.toNat

/-! ### What is written is read -/

namespace TrackerClient

variable {net : Network} {c : TrackerClient} {args : AnnounceArgs} {t : UdpTracker}
  {url : List UInt8} {transactionId key : UInt32} {connectionId : UInt64}

theorem bigEndian_uint64Bytes (n : UInt64) : bigEndian (uint64Bytes n) = n.toNat := by
  have hn := n.toNat_lt
  have hhi : (n >>> 32).toUInt32.toNat = n.toNat / 2 ^ 32 := by
    rw [UInt64.toNat_toUInt32, UInt64.toNat_shiftRight]
    show n.toNat >>> 32 % 2 ^ 32 = _
    rw [Nat.shiftRight_eq_div_pow]
    omega
  have hlo : n.toUInt32.toNat = n.toNat % 2 ^ 32 := UInt64.toNat_toUInt32 n
  simp only [bigEndian, uint64Bytes, uint32Bytes, List.cons_append, List.nil_append,
    List.foldl_cons, List.foldl_nil, UInt8.toNat_ofNat', hhi, hlo]
  omega

/-- The fields of an announcement, as they are laid out. -/
def announceFields (c : TrackerClient) (args : AnnounceArgs) (connectionId : UInt64)
    (transactionId key : UInt32) : List (List UInt8) :=
  [uint64Bytes connectionId, uint32Bytes 1, uint32Bytes transactionId,
    c.torrent.infoHash.toList, c.peerId.toList, uint64Bytes args.downloaded,
    uint64Bytes args.left, uint64Bytes args.uploaded, uint32Bytes (eventNumber args.event),
    uint32Bytes 0, uint32Bytes key, uint32Bytes 0xFFFFFFFF, uint16Bytes args.listeningPort]

/-- **What the client means** by its announcement. -/
def announcement (c : TrackerClient) (args : AnnounceArgs) (key : UInt32) : Announcement where
  infoHash := c.torrent.infoHash.toList
  peerId := c.peerId.toList
  downloaded := args.downloaded
  left := args.left
  uploaded := args.uploaded
  event := eventNumber args.event
  ip := 0
  key := key
  numWant := 0xFFFFFFFF
  port := args.listeningPort

theorem announceRequest_eq (c : TrackerClient) (args : AnnounceArgs) (connectionId : UInt64)
    (transactionId key : UInt32) : c.announceRequest args connectionId transactionId key =
      (c.announceFields args connectionId transactionId key).flatten := by
  simp [announceRequest, announceFields]

theorem length_announceRequest :
    (c.announceRequest args connectionId transactionId key).length = 98 := by
  simp [announceRequest, uint64Bytes, uint32Bytes, uint16Bytes]

/-- **A field of an announcement**: its place, where it starts and how many bytes it has. -/
theorem take_drop_announceRequest (i off n : ℕ) {w : List UInt8}
    (hw : (c.announceFields args connectionId transactionId key)[i]? = some w)
    (hoff : ([8, 4, 4, 20, 20, 8, 8, 8, 4, 4, 4, 4, 2].take i).sum = off) (hn : w.length = n) :
    ((c.announceRequest args connectionId transactionId key).drop off).take n = w := by
  rw [announceRequest_eq]
  refine List.take_drop_flatten _ i hw ?_ hn
  rw [List.length_flatten, ← hoff, List.map_take]
  simp [announceFields, uint64Bytes, uint32Bytes, uint16Bytes]

theorem wordAt_announceRequest (i off n : ℕ) {w : List UInt8}
    (hw : (c.announceFields args connectionId transactionId key)[i]? = some w)
    (hoff : ([8, 4, 4, 20, 20, 8, 8, 8, 4, 4, 4, 4, 2].take i).sum = off) (hn : w.length = n) :
    wordAt (c.announceRequest args connectionId transactionId key) off n = bigEndian w := by
  rw [wordAt, take_drop_announceRequest i off n hw hoff hn]

/-- **The tracker reads what the client means.** -/
theorem read_announceRequest : Announcement.read
    (c.announceRequest args connectionId transactionId key) = c.announcement args key := by
  rw [Announcement.read, take_drop_announceRequest 3 16 20 rfl rfl (by simp),
    take_drop_announceRequest 4 36 20 rfl rfl (by simp), wordAt_announceRequest 5 56 8 rfl rfl rfl,
    wordAt_announceRequest 6 64 8 rfl rfl rfl, wordAt_announceRequest 7 72 8 rfl rfl rfl,
    wordAt_announceRequest 8 80 4 rfl rfl rfl, wordAt_announceRequest 9 84 4 rfl rfl rfl,
    wordAt_announceRequest 10 88 4 rfl rfl rfl, wordAt_announceRequest 11 92 4 rfl rfl rfl,
    wordAt_announceRequest 12 96 2 rfl rfl rfl]
  simp only [bigEndian_uint64Bytes, bigEndian_uint32Bytes, bigEndian_uint16Bytes,
    UInt64.ofNat_toNat, UInt32.ofNat_toNat, UInt16.ofNat_toNat]
  rfl

/-- The tracker answers an announcement that comes with its number. -/
theorem answerAnnounce_announceRequest : t.answerAnnounce
    (c.announceRequest args t.connectionId transactionId key) =
      some (uint32Bytes 1 ++ uint32Bytes transactionId ++
        uint32Bytes (t.respond (c.announcement args key)).interval ++
        uint32Bytes (t.respond (c.announcement args key)).leechers ++
        uint32Bytes (t.respond (c.announcement args key)).seeders ++
        compact (t.respond (c.announcement args key)).peers) := by
  have hid : wordAt (c.announceRequest args t.connectionId transactionId key) 0 8 =
      t.connectionId.toNat := by
    rw [wordAt_announceRequest 0 0 8 rfl rfl rfl, bigEndian_uint64Bytes]
  have haction : wordAt (c.announceRequest args t.connectionId transactionId key) 8 4 = 1 := by
    rw [wordAt_announceRequest 1 8 4 rfl rfl rfl, bigEndian_uint32Bytes]
    rfl
  rw [UdpTracker.answerAnnounce, if_pos ⟨length_announceRequest, hid, haction⟩,
    read_announceRequest, take_drop_announceRequest 2 12 4 rfl rfl rfl]

/-- The tracker answers a request to connect. -/
theorem answerConnect_connectRequest : t.answerConnect (connectRequest transactionId) =
    some (uint32Bytes 0 ++ uint32Bytes transactionId ++ uint64Bytes t.connectionId) := by
  have hid : wordAt (connectRequest transactionId) 0 8 = 0x41727101980 := by
    show bigEndian (uint64Bytes 0x41727101980) = _
    rw [bigEndian_uint64Bytes]
    rfl
  have haction : wordAt (connectRequest transactionId) 8 4 = 0 := by
    show bigEndian (uint32Bytes 0) = _
    rw [bigEndian_uint32Bytes]
    rfl
  rw [UdpTracker.answerConnect, if_pos ⟨rfl, hid, haction⟩]
  rfl

/-! ### The answers -/

/-- The peers of a datagram have no identifiers. -/
theorem udpPeers_eq (header : List UInt8) (h : header.length = 20) (ps : List Ipv4Peer) :
    udpPeers (header ++ compact ps) = ps.map fun p => { toAddress := p.address } := by
  rw [eq_map_of_toAddress ?_ (udpPeers_compact h ps), List.map_map]
  · rfl
  · intro p hp
    obtain ⟨i, -, rfl⟩ := List.mem_map.mp hp
    rfl

/-- **The client makes of an answer what it is to make of it.** -/
theorem udpResponse_answer (a : UdpAnswer) (transactionId : UInt32) :
    udpResponse (uint32Bytes 1 ++ uint32Bytes transactionId ++ uint32Bytes a.interval ++
      uint32Bytes a.leechers ++ uint32Bytes a.seeders ++ compact a.peers) = a.response := by
  have hpeers := udpPeers_eq (uint32Bytes 1 ++ uint32Bytes transactionId ++
    uint32Bytes a.interval ++ uint32Bytes a.leechers ++ uint32Bytes a.seeders) rfl a.peers
  rw [udpResponse, UdpAnswer.response, hpeers, ← bigEndian_uint32Bytes a.interval,
    ← bigEndian_uint32Bytes a.leechers, ← bigEndian_uint32Bytes a.seeders]
  rfl

/-! ### Attempts -/

/-- **Attempts that all have the same result**, if any: it is had as soon as one succeeds. -/
theorem attempts_eq {α : Type} {attempt : ℕ → Attempt α} {a : α}
    (h : ∀ k, attempt k = .again ∨ attempt k = .done a) (failed : TrackerError) (n k : ℕ) :
    ((∃ j < n, attempt (k + j) ≠ .again) → attempts attempt failed n k = .ok a) ∧
      ((∀ j < n, attempt (k + j) = .again) → attempts attempt failed n k = .error failed) := by
  induction n generalizing k with
  | zero =>
    refine ⟨?_, fun _ => rfl⟩
    rintro ⟨j, hj, -⟩
    exact absurd hj (Nat.not_lt_zero j)
  | succ n ih =>
    rw [attempts]
    rcases h k with hk | hk <;> rw [hk]
    · dsimp only
      refine ⟨?_, fun hall => (ih (k + 1)).2 fun j hj => ?_⟩
      · rintro ⟨j, hj, hne⟩
        refine (ih (k + 1)).1 ?_
        -- the attempt that succeeds is not the first
        cases j with
        | zero => exact absurd hk hne
        | succ j => exact ⟨j, by omega, by rwa [Nat.add_right_comm, Nat.add_assoc]⟩
      · rw [Nat.add_right_comm, Nat.add_assoc]
        exact hall (j + 1) (by omega)
    · refine ⟨fun _ => rfl, fun hall => ?_⟩
      have hzero := hall 0 (by omega)
      rw [Nat.add_zero, hk] at hzero
      cases hzero

section Exchange

variable {α : Type} {e : Exchange} {size action : ℕ} {onError : List UInt8 → TrackerError}
  {read : List UInt8 → α}

theorem exchange_of_isLost (h : e.IsLost transactionId size) :
    exchange e transactionId size action onError read = .again := by
  cases e with
  | setsockoptFails => exact h.elim
  | sendFails => rfl
  | recvFails => rfl
  | received datagram =>
    rw [exchange]
    rcases h with hlen | hid
    · rw [if_pos hlen]
    · rw [if_pos hid, ite_self]

/-- **The answer that is waited for.** -/
theorem exchange_received {datagram : List UInt8} (hmax : datagram.length ≤ bufferSize)
    (hsize : size ≤ datagram.length) (hid : wordAt datagram 4 4 = transactionId.toNat)
    (haction : wordAt datagram 0 4 = action) (hne : action ≠ 3) :
    exchange (.received datagram) transactionId size action onError read =
      .done (read datagram) := by
  rw [exchange, List.take_of_length_le hmax, if_neg (Nat.not_lt.mpr hsize),
    if_neg (not_not.mpr hid), if_neg (haction ▸ hne), if_neg (not_not.mpr haction)]

end Exchange

/-- **A network that leads to a tracker**: each datagram comes to nothing or is answered by it. -/
structure Reaches (net : Network) (c : TrackerClient) (args : AnnounceArgs) (t : UdpTracker) :
    Prop where
  resolve_eq : ∀ host port, net.resolve host port = none
  socket_eq : net.socket = none
  connect : ∀ k, (net.connect k (connectRequest (net.connectId k))).IsLost (net.connectId k) 16 ∨
    ∃ datagram ∈ t.answerConnect (connectRequest (net.connectId k)),
      net.connect k (connectRequest (net.connectId k)) = .received datagram
  announce : ∀ k, (net.announce k (c.announceRequest args t.connectionId (net.announceId k)
      net.key)).IsLost (net.announceId k) 20 ∨
    ∃ datagram ∈ t.answerAnnounce
        (c.announceRequest args t.connectionId (net.announceId k) net.key),
      net.announce k (c.announceRequest args t.connectionId (net.announceId k) net.key) =
        .received datagram

/-- The attempts to connect that come through. -/
def Connects (net : Network) (k : ℕ) : Prop :=
  ¬(net.connect k (connectRequest (net.connectId k))).IsLost (net.connectId k) 16

/-- The announcements that come through. -/
def Announces (net : Network) (c : TrackerClient) (args : AnnounceArgs) (t : UdpTracker) (k : ℕ) :
    Prop :=
  ¬(net.announce k (c.announceRequest args t.connectionId (net.announceId k) net.key)).IsLost
    (net.announceId k) 20

/-- **One attempt to connect.** -/
theorem Reaches.connectAttempt (h : Reaches net c args t) (k : ℕ) :
    (¬Connects net k ∧ TrackerClient.connectAttempt net k = .again) ∨
      (Connects net k ∧ TrackerClient.connectAttempt net k = .done t.connectionId) := by
  by_cases hlost : (net.connect k (connectRequest (net.connectId k))).IsLost (net.connectId k) 16
  · exact Or.inl ⟨not_not.mpr hlost, exchange_of_isLost hlost⟩
  · refine Or.inr ⟨hlost, ?_⟩
    obtain ⟨datagram, hd, he⟩ := (h.connect k).resolve_left hlost
    rw [answerConnect_connectRequest, Option.mem_some_iff] at hd
    subst hd
    rw [TrackerClient.connectAttempt, he, exchange_received]
    · congr 1
      show UInt64.ofNat (bigEndian (uint64Bytes t.connectionId)) = _
      rw [bigEndian_uint64Bytes, UInt64.ofNat_toNat]
    · show 16 ≤ 65535
      decide
    · exact Nat.le_refl 16
    · exact bigEndian_uint32Bytes _
    · exact bigEndian_uint32Bytes 0
    · decide

/-- **One attempt to announce.** -/
theorem Reaches.announceAttempt (h : Reaches net c args t) (k : ℕ) :
    (¬Announces net c args t k ∧ c.announceAttempt net args t.connectionId k = .again) ∨
      (Announces net c args t k ∧ c.announceAttempt net args t.connectionId k =
        .done (t.respond (c.announcement args net.key)).response) := by
  by_cases hlost : (net.announce k (c.announceRequest args t.connectionId (net.announceId k)
      net.key)).IsLost (net.announceId k) 20
  · exact Or.inl ⟨not_not.mpr hlost, exchange_of_isLost hlost⟩
  · refine Or.inr ⟨hlost, ?_⟩
    obtain ⟨datagram, hd, he⟩ := (h.announce k).resolve_left hlost
    rw [answerAnnounce_announceRequest, Option.mem_some_iff] at hd
    subst hd
    set a := t.respond (c.announcement args net.key)
    have hlen : (uint32Bytes 1 ++ uint32Bytes (net.announceId k) ++ uint32Bytes a.interval ++
        uint32Bytes a.leechers ++ uint32Bytes a.seeders ++ compact a.peers).length =
          20 + 6 * a.peers.length := by
      rw [List.length_append, length_compact]
      rfl
    rw [TrackerClient.announceAttempt, he, exchange_received, udpResponse_answer]
    · exact hlen ▸ a.length_peers
    · rw [hlen]
      exact Nat.le_add_right 20 _
    · exact bigEndian_uint32Bytes (net.announceId k)
    · exact bigEndian_uint32Bytes 1
    · decide

/-- **The exchange with a UDP tracker**, over a network that loses datagrams and brings stray ones:
if one of three attempts to connect and one of three announcements come through, the client has the
answer of the tracker to exactly its arguments; and otherwise it knows which exchange failed. -/
theorem announceUdp_reaches (h : Reaches net c args t)
    (hurl : (ascii "udp://").isPrefixOf url = true) :
    ((∃ k < 3, Connects net k) → (∃ k < 3, Announces net c args t k) →
      c.announceUdp net args url = .ok (t.respond (c.announcement args net.key)).response) ∧
    ((∃ k < 3, Connects net k) → (∀ k < 3, ¬Announces net c args t k) →
      c.announceUdp net args url = .error .notAnnounced) ∧
    ((∀ k < 3, ¬Connects net k) → c.announceUdp net args url = .error .notConnected) := by
  have hudp : c.announceUdp net args url = (do
      let connectionId ← attempts (TrackerClient.connectAttempt net) .notConnected retryAttempts 0
      attempts (c.announceAttempt net args connectionId) .notAnnounced retryAttempts 0) := by
    rw [announceUdp, hurl, if_neg (by decide)]
    dsimp only
    rw [h.resolve_eq, h.socket_eq]
  have hconnect := attempts_eq (fun k => (h.connectAttempt k).imp And.right And.right)
    .notConnected retryAttempts 0
  have hannounce := attempts_eq (fun k => (h.announceAttempt k).imp And.right And.right)
    .notAnnounced retryAttempts 0
  simp only [Nat.zero_add] at hconnect hannounce
  have hconnects : ∀ {k}, Connects net k → TrackerClient.connectAttempt net k ≠ .again := by
    intro k hk hagain
    rcases h.connectAttempt k with ⟨hno, -⟩ | ⟨-, hdone⟩
    · exact hno hk
    · cases hagain.symm.trans hdone
  have hannounces : ∀ {k}, Announces net c args t k →
      c.announceAttempt net args t.connectionId k ≠ .again := by
    intro k hk hagain
    rcases h.announceAttempt k with ⟨hno, -⟩ | ⟨-, hdone⟩
    · exact hno hk
    · cases hagain.symm.trans hdone
  rw [hudp]
  refine ⟨?_, ?_, fun hno => ?_⟩
  · rintro ⟨k, hk, hck⟩ ⟨k', hk', hak⟩
    rw [hconnect.1 ⟨k, hk, hconnects hck⟩]
    exact hannounce.1 ⟨k', hk', hannounces hak⟩
  · rintro ⟨k, hk, hck⟩ hno
    rw [hconnect.1 ⟨k, hk, hconnects hck⟩]
    refine hannounce.2 fun j hj => ?_
    exact ((h.announceAttempt j).resolve_right fun hc => hno j hj hc.1).2
  · rw [hconnect.2 fun j hj => ((h.connectAttempt j).resolve_right fun hc => hno j hj hc.1).2]
    rfl

/-- A tracker with one peer. -/
def onePeer : UdpTracker where
  connectionId := 7
  respond := fun _ => ⟨1800, 0, 1, [⟨10, 0, 0, 1, 6881⟩], by decide⟩

/-- An answer that arrives, if there is one. -/
def arriving : Option (List UInt8) → Exchange
  | some datagram => .received datagram
  | none => .recvFails

/-- A network that loses the first datagram of each exchange, and brings a stray one in the place
of the first answer to an announcement. -/
def losing : Network where
  curlInit := true
  perform := fun _ => .failed []
  resolve := fun _ _ => none
  socket := none
  connectId := fun k => .ofNat k
  connect := fun k request =>
    if k = 0 then .recvFails
    else arriving (onePeer.answerConnect request)
  key := 5
  announceId := fun k => .ofNat k
  announce := fun k request =>
    if k = 0 then .received (uint32Bytes 1 ++ uint32Bytes 99 ++ uint64Bytes 0 ++ uint64Bytes 0)
    else arriving (onePeer.answerAnnounce request)
  garbage := fun _ => 0

theorem reaches_losing (c : TrackerClient) (args : AnnounceArgs) :
    Reaches losing c args onePeer where
  resolve_eq := fun _ _ => rfl
  socket_eq := rfl
  connect := fun k => by
    rcases Nat.eq_zero_or_pos k with rfl | hk
    · exact Or.inl trivial
    · exact Or.inr ⟨_, answerConnect_connectRequest, (if_neg (Nat.ne_of_gt hk)).trans
        (congrArg arriving answerConnect_connectRequest)⟩
  announce := fun k => by
    rcases Nat.eq_zero_or_pos k with rfl | hk
    · exact Or.inl (Or.inr (by decide))
    · exact Or.inr ⟨_, answerAnnounce_announceRequest, (if_neg (Nat.ne_of_gt hk)).trans
        (congrArg arriving answerAnnounce_announceRequest)⟩

/-- The second attempt of each exchange comes through. -/
theorem announceUdp_reaches_losing :
    twoTrackers.announceUdp losing ⟨6881, 0, 0, 1, none⟩ (ascii "udp://t") =
      .ok { interval := 1800, complete := 1,
            peers := [{ ip := ascii "10.0.0.1", port := 6881 }] } := by
  have hconnect : Connects losing 1 := by
    rintro (hlen | hid)
    · exact absurd hlen (by decide)
    · exact hid (by decide)
  have hannounce : Announces losing twoTrackers ⟨6881, 0, 0, 1, none⟩ onePeer 1 := by
    rintro (hlen | hid)
    · exact absurd hlen (by decide)
    · exact hid (by decide)
  exact (announceUdp_reaches (reaches_losing _ _) (by decide)).1 ⟨1, by decide, hconnect⟩
    ⟨1, by decide, hannounce⟩

end TrackerClient

end TransferEngine
