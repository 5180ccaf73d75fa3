import Mathlib.Data.List.GetD
import TransferEngine.Bencode.RoundTrip
import TransferEngine.Tracker.Model

/-!
# Lists of peers

A tracker sends its peers in one of three ways, each with a decoder of its own: packed into a
string, six bytes a peer, as a list of dictionaries, or packed into a datagram. For IPv4 peers the
three decoders agree (`TransferEngine.TrackerClient.decoders_agree`).

The decoder of the list of dictionaries makes a peer of every dictionary, also of one that has no
address or no port, and cuts a port down to sixteen bits. So the peers it returns are those that
the tracker has named exactly if the dictionaries are complete
(`TransferEngine.TrackerClient.genuine_iff`).
-/

namespace TransferEngine

namespace TrackerClient

open Bytes BencodeParser

variable {garbage : ℕ → UInt16} {s : List UInt8} {i k : ℕ}
  {d : List (BencodeString × BencodeValue)} {l : List BencodeValue} {r : TrackerResponse}
  {g : UInt16} {peer : PeerInfo} {peers : List PeerInfo}

/-! ### Packed peers -/

/-- An IPv4 address and a port. -/
structure Ipv4Peer where
  /-- The first byte of the address. -/
  ip1 : UInt8
  /-- The second one. -/
  ip2 : UInt8
  /-- The third one. -/
  ip3 : UInt8
  /-- The last one. -/
  ip4 : UInt8
  /-- The port. -/
  port : UInt16
  deriving DecidableEq

/-- The six bytes of a peer, in network order. -/
def Ipv4Peer.bytes (p : Ipv4Peer) : List UInt8 :=
  [p.ip1, p.ip2, p.ip3, p.ip4] ++ uint16Bytes p.port

/-- The peer as the client names it: the address is a dotted quad. -/
def Ipv4Peer.address (p : Ipv4Peer) : Address where
  ip := dotted p.ip1 p.ip2 p.ip3 p.ip4
  port := p.port

/-- **The compact form** of a list of peers. -/
def compact (ps : List Ipv4Peer) : List UInt8 := ps.flatMap Ipv4Peer.bytes

theorem length_compact (ps : List Ipv4Peer) : (compact ps).length = 6 * ps.length := by
  induction ps with
  | nil => rfl
  | cons p ps ih =>
    rw [compact] at ih ⊢
    rw [List.flatMap_cons, List.length_append, ih, List.length_cons]
    have hp : p.bytes.length = 6 := rfl
    omega

/-- Two bytes shifted together are the number they spell. -/
theorem shiftLeft_or (hi lo : UInt8) :
    hi.toUInt16 <<< 8 ||| lo.toUInt16 = UInt16.ofNat (bigEndian [hi, lo]) := by
  have hhi := hi.toNat_lt
  have hlo := lo.toNat_lt
  refine UInt16.toNat_inj.mp ?_
  have hor := Nat.shiftLeft_add_eq_or_of_lt (i := 8) hlo hi.toNat
  rw [Nat.shiftLeft_eq] at hor
  have hshift : hi.toNat <<< 8 % 2 ^ 16 = hi.toNat * 2 ^ 8 := by
    rw [Nat.shiftLeft_eq, Nat.mod_eq_of_lt (by omega)]
  simp only [bigEndian, List.foldl_cons, List.foldl_nil, UInt16.toNat_or, UInt16.toNat_shiftLeft,
    UInt8.toNat_toUInt16, UInt16.toNat_ofNat', UInt16.reduceToNat]
  rw [hshift, ← hor]
  omega

/-- The number in two bytes that are there. -/
theorem wordAt_two (h : i + 2 ≤ s.length) :
    wordAt s i 2 = bigEndian [s.getD i 0, s.getD (i + 1) 0] := by
  have htake : (s.drop i).take 2 = [s.getD i 0, s.getD (i + 1) 0] := by
    rw [List.drop_eq_getElem_cons (by omega), List.take_succ_cons,
      List.drop_eq_getElem_cons (by omega), List.take_succ_cons, List.take_zero,
      List.getD_eq_getElem s 0 (by omega), List.getD_eq_getElem s 0 (by omega)]
  rw [wordAt, htake]

/-- **The two decoders of packed peers agree** on every six bytes. -/
theorem compactPeer_eq_udpPeer (h : i + 6 ≤ s.length) : compactPeer s i = udpPeer s i := by
  rw [compactPeer, udpPeer, shiftLeft_or, wordAt_two (by omega)]

/-- The decoders read a packed peer. -/
theorem udpPeer_append (header rest : List UInt8) (p : Ipv4Peer) :
    (udpPeer (header ++ (p.bytes ++ rest)) header.length).toAddress = p.address := by
  have hget : ∀ k, (header ++ (p.bytes ++ rest)).getD (header.length + k) 0 =
      (p.bytes ++ rest).getD k 0 := by
    intro k
    rw [List.getD_append_right _ _ _ _ (Nat.le_add_right _ k), Nat.add_sub_cancel_left]
  have hport : wordAt (header ++ (p.bytes ++ rest)) (header.length + 4) 2 = p.port.toNat := by
    have hlen : 6 ≤ (p.bytes ++ rest).length := by
      rw [List.length_append]
      exact Nat.le_add_right 6 _
    rw [wordAt_two (by rw [List.length_append]; omega), Nat.add_assoc, hget, hget,
      ← bigEndian_uint16Bytes p.port]
    rfl
  have hzero := hget 0
  rw [Nat.add_zero] at hzero
  rw [udpPeer, Ipv4Peer.address, hport, hzero, hget, hget, hget, UInt16.ofNat_toNat]
  rfl

/-- **The loop over packed peers**, behind any header. -/
theorem map_udpPeer_compact (header : List UInt8) (ps : List Ipv4Peer) :
    (List.range ps.length).map
        (fun k => (udpPeer (header ++ compact ps) (header.length + 6 * k)).toAddress) =
      ps.map Ipv4Peer.address := by
  induction ps generalizing header with
  | nil => rfl
  | cons p ps ih =>
    have hstep : header ++ compact (p :: ps) = header ++ (p.bytes ++ compact ps) := rfl
    rw [List.length_cons, List.range_succ_eq_map, List.map_cons, List.map_map, hstep, Nat.mul_zero,
      Nat.add_zero, udpPeer_append, List.map_cons, ← ih (header ++ p.bytes)]
    congr 1
    refine List.map_congr_left fun k _ => ?_
    -- what is behind the first peer is behind a longer header
    have hlen : (header ++ p.bytes).length = header.length + 6 := List.length_append
    rw [Function.comp_apply, List.append_assoc, hlen, Nat.mul_succ, Nat.add_assoc, Nat.add_comm 6]

theorem udpPeers_compact {header : List UInt8} (h : header.length = 20) (ps : List Ipv4Peer) :
    (udpPeers (header ++ compact ps)).map PeerInfo.toAddress = ps.map Ipv4Peer.address := by
  have hcount : ((header ++ compact ps).length - 20) / 6 = ps.length := by
    rw [List.length_append, length_compact]
    omega
  rw [udpPeers, hcount, List.map_map, ← map_udpPeer_compact header ps, h]
  refine List.map_congr_left fun k _ => ?_
  rw [Function.comp_apply, Nat.mul_comm]

theorem compactPeers_compact (ps : List Ipv4Peer) :
    ∃ peers, compactPeers (compact ps) = .ok peers ∧
      peers.map PeerInfo.toAddress = ps.map Ipv4Peer.address := by
  have hlen := length_compact ps
  have hcount : (compact ps).length / 6 = ps.length := by omega
  rw [compactPeers, if_neg (by omega), hcount]
  refine ⟨_, rfl, ?_⟩
  rw [List.map_map, ← map_udpPeer_compact [] ps]
  refine List.map_congr_left fun k hk => ?_
  have hk' := List.mem_range.mp hk
  rw [Function.comp_apply, compactPeer_eq_udpPeer (by omega), List.nil_append, List.length_nil,
    Nat.zero_add]

/-- **Peers without identifiers** are known by their addresses. -/
theorem eq_map_of_toAddress {as : List Address} (hid : ∀ p ∈ peers, p.id = [])
    (hmap : peers.map PeerInfo.toAddress = as) : peers = as.map fun a => { toAddress := a } := by
  rw [← hmap, List.map_map]
  conv_lhs => rw [← List.map_id peers]
  refine List.map_congr_left fun p hp => ?_
  have := hid p hp
  cases p
  subst this
  rfl

/-! ### Dotted quads -/

theorem dot_not_mem_ofNat (n : ℕ) : (0x2e : UInt8) ∉ Decimal.ofNat n := by
  intro hmem
  cases (Decimal.canonical_ofNat n).isDigit _ hmem

theorem ofNat_toNat_inj {a b : UInt8} (h : Decimal.ofNat a.toNat = Decimal.ofNat b.toNat) :
    a = b := by
  rw [← UInt8.toNat_inj, ← Decimal.value_ofNat a.toNat, h, Decimal.value_ofNat]

/-- **A dotted quad determines the four bytes.** -/
theorem dotted_inj {a b c d a' b' c' d' : UInt8} (h : dotted a b c d = dotted a' b' c' d') :
    a = a' ∧ b = b' ∧ c = c' ∧ d = d' := by
  have hdot : ascii "." = [0x2e] := by decide
  have hno := fun n : UInt8 => dot_not_mem_ofNat n.toNat
  simp only [dotted, hdot, List.append_assoc, List.singleton_append] at h
  obtain ⟨ha, h⟩ := List.append_cons_inj_left (hno a) (hno a') h
  obtain ⟨hb, h⟩ := List.append_cons_inj_left (hno b) (hno b') h
  obtain ⟨hc, hd⟩ := List.append_cons_inj_left (hno c) (hno c') h
  exact ⟨ofNat_toNat_inj ha, ofNat_toNat_inj hb, ofNat_toNat_inj hc, ofNat_toNat_inj hd⟩

theorem address_injective : Function.Injective Ipv4Peer.address := by
  intro p q h
  rw [Ipv4Peer.address, Ipv4Peer.address, Address.mk.injEq] at h
  obtain ⟨h1, h2, h3, h4⟩ := dotted_inj h.1
  cases p
  cases q
  simp_all

/-! ### Peers in dictionaries -/

/-- A dictionary for a peer: the address as a dotted quad, the port, and whatever else, where an
identifier is a string. -/
def Lists (v : BencodeValue) (p : Ipv4Peer) : Prop :=
  ∃ d, v = .dict d ∧ d.lookup (ascii "ip") = some (.string p.address.ip) ∧
    d.lookup (ascii "port") = some (.int p.port.toNat) ∧
    ∀ w, d.lookup (ascii "peer id") = some w → ∃ id, w = .string id

theorem field_of_none {α : Type} {get : BencodeValue → Except TrackerError α} {default : α}
    {key : String} (h : d.lookup (ascii key) = none) : field get default key d = .ok default := by
  rw [field, h]

theorem field_of_some {α : Type} {get : BencodeValue → Except TrackerError α} {default : α}
    {key : String} {v : BencodeValue} (h : d.lookup (ascii key) = some v) :
    field get default key d = get v := by
  rw [field, h]

/-- A field that is a number wherever it is there can be read. -/
theorem exists_field_asInt {key : String}
    (h : ∀ w, d.lookup (ascii key) = some w → ∃ n, w = .int n) :
    ∃ n, field asInt 0 key d = .ok n := by
  rcases hv : d.lookup (ascii key) with _ | v
  · exact ⟨0, field_of_none hv⟩
  · obtain ⟨n, rfl⟩ := h v hv
    exact ⟨n, field_of_some hv⟩

theorem listPeer_of_lists {v : BencodeValue} {p : Ipv4Peer} (h : Lists v p) :
    ∃ d, v = .dict d ∧ ∃ peer, listPeer g d = .ok peer ∧ peer.toAddress = p.address := by
  obtain ⟨d, rfl, hip, hport, hid⟩ := h
  have hnarrow : UInt16.ofInt (p.port.toNat : ℤ) = p.port := by
    have hlt := p.port.toNat_lt
    refine UInt16.toNat_inj.mp ?_
    simp only [UInt16.ofInt, UInt16.toNat_ofNat']
    omega
  refine ⟨d, rfl, ?_⟩
  rw [listPeer, field_of_some hip, asString, ok_bind, field_of_some hport, asInt, Except.map,
    ok_bind, hnarrow]
  rcases hv : d.lookup (ascii "peer id") with _ | w
  · rw [field_of_none hv]
    exact ⟨_, rfl, rfl⟩
  · obtain ⟨id, rfl⟩ := hid w hv
    rw [field_of_some hv]
    exact ⟨_, rfl, rfl⟩

/-- **The loop over a list of such dictionaries.** -/
theorem listPeers_of_lists (garbage : ℕ → UInt16) (k : ℕ) {ps : List Ipv4Peer}
    (h : List.Forall₂ Lists l ps) :
    ∃ peers, listPeers garbage k l = .ok peers ∧
      peers.map PeerInfo.toAddress = ps.map Ipv4Peer.address := by
  induction h generalizing k with
  | nil => exact ⟨[], rfl, rfl⟩
  | cons hv _ ih =>
    obtain ⟨d, rfl, peer, hpeer, haddr⟩ := listPeer_of_lists (g := garbage k) hv
    obtain ⟨peers, hpeers, hmap⟩ := ih (k + 1)
    refine ⟨peer :: peers, ?_, ?_⟩
    · rw [listPeers, hpeer, ok_bind, hpeers]
      rfl
    · rw [List.map_cons, haddr, hmap, List.map_cons]

/-! ### Responses -/

/-- **A response whose peers are `v`**: a dictionary that can be spelled and read, that reports no
failure, and whose numbers are numbers. -/
structure AnswerWith (d : List (BencodeString × BencodeValue)) (v : BencodeValue) : Prop where
  /-- It is a value of the types of the source. -/
  wellFormed : (BencodeValue.dict d).WellFormed
  /-- The parser can read it. -/
  readable : ¬(BencodeValue.dict d).Contains (-2 ^ 63)
  /-- It reports no failure. -/
  noFailure : d.lookup (ascii "failure reason") = none
  /-- The numbers of it are numbers. -/
  numbers : ∀ key ∈ ["interval", "complete", "incomplete"], ∀ w,
    d.lookup (ascii key) = some w → ∃ n, w = .int n
  /-- These are its peers. -/
  peers : d.lookup (ascii "peers") = some v

/-- A dictionary with nothing but peers. -/
theorem answerWith_single {v : BencodeValue} (hv : v.WellFormed) (hno : ¬v.Contains (-2 ^ 63)) :
    AnswerWith [(ascii "peers", v)] v where
  wellFormed := .dict _ (List.pairwise_singleton _ _)
    (fun e he => List.mem_singleton.mp he ▸ (by decide : (ascii "peers").length < 2 ^ 64))
    fun e he => List.mem_singleton.mp he ▸ hv
  readable := by
    intro hc
    cases hc with
    | entry _ e he hin =>
      rw [List.mem_singleton.mp he] at hin
      exact hno hin
  noFailure := rfl
  numbers := by
    intro key hkey w hw
    have hnone : ∀ key ∈ ["interval", "complete", "incomplete"],
        (ascii key == ascii "peers") = false := by decide
    rw [List.lookup_cons, hnone key hkey] at hw
    cases hw
  peers := by
    rw [List.lookup_cons, beq_self_eq_true]

/-- **What such a response is read as.** -/
theorem AnswerWith.parseResponse {v : BencodeValue} (h : AnswerWith d v)
    (hpeers : readPeers garbage (some v) = .ok peers) :
    ∃ r, parseResponse garbage (encode (.dict d)) = .ok r ∧ r.peers = peers := by
  have hparse : parse (encode (.dict d)) = .ok (.dict d) :=
    parse_eq_ok.mpr ⟨rfl, bounded_leastInt_iff.mpr ⟨h.wellFormed, h.readable⟩⟩
  obtain ⟨interval, hi⟩ := exists_field_asInt (h.numbers "interval" (by decide))
  obtain ⟨complete, hc⟩ := exists_field_asInt (h.numbers "complete" (by decide))
  obtain ⟨incomplete, hn⟩ := exists_field_asInt (h.numbers "incomplete" (by decide))
  refine ⟨{ interval, complete, incomplete, peers }, ?_, rfl⟩
  rw [TrackerClient.parseResponse, hparse, Except.mapError, ok_bind]
  dsimp only
  rw [readResponse, h.noFailure]
  dsimp only
  rw [hi, ok_bind, hc, ok_bind, hn, ok_bind, h.peers, hpeers]
  rfl

/-- What is read off the fields of a dictionary. -/
theorem parseResponse_of_parse {data : List UInt8} (h : parse data = .ok (.dict d)) :
    TrackerClient.parseResponse garbage data = readResponse garbage d := by
  rw [TrackerClient.parseResponse, h]
  rfl

/-- A response that cannot be read as a list of peers is rejected. -/
theorem readResponse_eq_error {e : TrackerError} (hfail : d.lookup (ascii "failure reason") = none)
    (he : readPeers garbage (d.lookup (ascii "peers")) = .error e) :
    ∃ e, readResponse garbage d = .error e := by
  rcases hr : readResponse garbage d with e | r
  · exact ⟨e, rfl⟩
  · rw [readResponse, hfail] at hr
    dsimp only at hr
    obtain ⟨_, -, hr⟩ := bind_eq_ok hr
    obtain ⟨_, -, hr⟩ := bind_eq_ok hr
    obtain ⟨_, -, hr⟩ := bind_eq_ok hr
    obtain ⟨_, hpeers, -⟩ := bind_eq_ok hr
    rw [he] at hpeers
    cases hpeers

/-- **The three decoders agree.** For IPv4 peers, a response with the packed peers, a response
with a dictionary for each of them, and a datagram with the packed peers behind its header are
read as the same addresses and ports, those of the peers in order, with the addresses as dotted
quads; from these the peers can be told. A string whose length is no multiple of six is
rejected. -/
theorem decoders_agree (garbage : ℕ → UInt16) (ps : List Ipv4Peer) :
    (∀ d, AnswerWith d (.string (compact ps)) → ∃ r,
      TrackerClient.parseResponse garbage (encode (.dict d)) = .ok r ∧
        r.peers.map PeerInfo.toAddress = ps.map Ipv4Peer.address) ∧
      (∀ d l, AnswerWith d (.list l) → List.Forall₂ Lists l ps → ∃ r,
        TrackerClient.parseResponse garbage (encode (.dict d)) = .ok r ∧
          r.peers.map PeerInfo.toAddress = ps.map Ipv4Peer.address) ∧
      (∀ header : List UInt8, header.length = 20 →
        (udpPeers (header ++ compact ps)).map PeerInfo.toAddress = ps.map Ipv4Peer.address) ∧
      (∀ ps' : List Ipv4Peer, ps'.map Ipv4Peer.address = ps.map Ipv4Peer.address → ps' = ps) ∧
      ∀ data d s, parse data = .ok (.dict d) → d.lookup (ascii "failure reason") = none →
        d.lookup (ascii "peers") = some (.string s) → s.length % 6 ≠ 0 →
          ∃ e, TrackerClient.parseResponse garbage data = .error e := by
  refine ⟨fun d hd => ?_, fun d l hd hl => ?_, fun header hlen => udpPeers_compact hlen ps,
    fun ps' h => List.map_injective_iff.mpr address_injective h,
    fun data d s hdata hfail hs hmod => ?_⟩
  · obtain ⟨peers, hpeers, hmap⟩ := compactPeers_compact ps
    obtain ⟨r, hr, rfl⟩ := hd.parseResponse hpeers
    exact ⟨r, hr, hmap⟩
  · obtain ⟨peers, hpeers, hmap⟩ := listPeers_of_lists garbage 0 hl
    obtain ⟨r, hr, rfl⟩ := hd.parseResponse hpeers
    exact ⟨r, hr, hmap⟩
  · rw [parseResponse_of_parse hdata]
    refine readResponse_eq_error (e := .compactLength) hfail ?_
    rw [hs, readPeers, compactPeers, if_pos hmod]

/-- Two peers, `127.0.0.1:6881` and `192.168.1.10:8080`, packed into a string, and in a list of
dictionaries of which the second has an identifier. -/
theorem decoders_agree_two :
    let addresses : List Address := [⟨ascii "127.0.0.1", 6881⟩, ⟨ascii "192.168.1.10", 8080⟩]
    let packed : BencodeValue := .string [0x7f, 0, 0, 1, 0x1a, 0xe1, 0xc0, 0xa8, 1, 10, 0x1f, 0x90]
    let dicts : BencodeValue := .list [
      .dict [(ascii "ip", .string (ascii "127.0.0.1")), (ascii "port", .int 6881)],
      .dict [(ascii "ip", .string (ascii "192.168.1.10")), (ascii "peer id", .string (ascii "x")),
        (ascii "port", .int 8080)]]
    ∀ v ∈ [packed, dicts], ∃ r,
      TrackerClient.parseResponse (fun _ => 0) (encode (.dict [(ascii "peers", v)])) = .ok r ∧
        r.peers.map PeerInfo.toAddress = addresses := by
  intro addresses packed dicts
  obtain ⟨hpacked, hdicts, -⟩ :=
    decoders_agree (fun _ => 0) [⟨127, 0, 0, 1, 6881⟩, ⟨192, 168, 1, 10, 8080⟩]
  -- what the parser reads back is well formed
  have hread : ∀ v : BencodeValue, parse (encode v) = .ok v →
      v.WellFormed ∧ ¬v.Contains (-2 ^ 63) :=
    fun _ h => bounded_leastInt_iff.mp (parse_eq_ok.mp h).2
  rw [List.forall_mem_cons, List.forall_mem_singleton]
  constructor
  · obtain ⟨hwf, hno⟩ := hread packed rfl
    exact hpacked _ (answerWith_single hwf hno)
  · obtain ⟨hwf, hno⟩ := hread dicts rfl
    refine hdicts _ _ (answerWith_single hwf hno) (.cons ?_ (.cons ?_ .nil))
    · exact ⟨_, rfl, rfl, rfl, fun w hw => nomatch hw⟩
    · exact ⟨_, rfl, rfl, rfl, fun w hw => ⟨ascii "x", (Option.some.inj hw).symm⟩⟩

/-! ### Dictionaries that are not complete -/

/-- **A dictionary names a peer**: it has its address and its port. -/
def Names (d : List (BencodeString × BencodeValue)) (peer : PeerInfo) : Prop :=
  d.lookup (ascii "ip") = some (.string peer.ip) ∧
    d.lookup (ascii "port") = some (.int peer.port.toNat)

/-- A dictionary names some peer: it has an address, and a port from 0 to 65535. -/
def Complete (d : List (BencodeString × BencodeValue)) : Prop :=
  (∃ ip, d.lookup (ascii "ip") = some (.string ip)) ∧
    ∃ n : ℤ, d.lookup (ascii "port") = some (.int n) ∧ 0 ≤ n ∧ n < 2 ^ 16

/-- The dictionaries in a list. -/
def dicts (l : List BencodeValue) : List (List (BencodeString × BencodeValue)) :=
  l.filterMap TorrentFile.asDict

/-- **The peers are named** by dictionaries of the list, in their order. -/
def Genuine (l : List BencodeValue) (peers : List PeerInfo) : Prop :=
  ∃ entries : List (List (BencodeString × BencodeValue)), entries.Sublist (dicts l) ∧
    List.Forall₂ Names entries peers

/-- **A dictionary names the peer that is made of it** exactly if it is complete. -/
theorem names_iff (h : listPeer g d = .ok peer) : Names d peer ↔ Complete d := by
  rw [listPeer] at h
  obtain ⟨ip, hip, h⟩ := bind_eq_ok h
  obtain ⟨port, hport, h⟩ := bind_eq_ok h
  obtain ⟨id, -, h⟩ := bind_eq_ok h
  cases h
  constructor
  · rintro ⟨hip', hport'⟩
    have hlt := port.toNat_lt
    exact ⟨⟨ip, hip'⟩, _, hport', by omega, by dsimp only; omega⟩
  · rintro ⟨⟨ip', hip'⟩, n, hn, hlo, hhi⟩
    rw [field_of_some hip', asString, Except.ok.injEq] at hip
    rw [field_of_some hn, asInt, Except.map, Except.ok.injEq] at hport
    subst hip hport
    refine ⟨hip', ?_⟩
    have hnat : ((UInt16.ofInt n).toNat : ℤ) = n := by
      simp only [UInt16.ofInt, UInt16.toNat_ofNat']
      omega
    rw [hn, hnat]

/-- The loop makes a peer of each dictionary. -/
theorem forall₂_listPeers (h : listPeers garbage k l = .ok peers) :
    List.Forall₂ (fun d peer => ∃ g, listPeer g d = .ok peer) (dicts l) peers := by
  induction l generalizing k peers with
  | nil =>
    cases h
    exact .nil
  | cons v l ih =>
    cases v with
    | dict d =>
      rw [listPeers] at h
      obtain ⟨peer, hpeer, h⟩ := bind_eq_ok h
      obtain ⟨peers', hpeers, h⟩ := bind_eq_ok h
      cases h
      exact .cons ⟨_, hpeer⟩ (ih hpeers)
    | int n => exact ih h
    | string str => exact ih h
    | list l' => exact ih h

theorem forall₂_names_iff {ds : List (List (BencodeString × BencodeValue))}
    (h : List.Forall₂ (fun d peer => ∃ g, listPeer g d = .ok peer) ds peers) :
    List.Forall₂ Names ds peers ↔ ∀ d ∈ ds, Complete d := by
  induction h with
  | nil => simp
  | cons hpeer _ ih =>
    obtain ⟨g, hg⟩ := hpeer
    rw [List.forall₂_cons, ih, names_iff hg, List.forall_mem_cons]

/-- **The peers of a list are genuine** exactly if every dictionary of the list is complete. -/
theorem genuine_listPeers_iff (h : listPeers garbage k l = .ok peers) :
    Genuine l peers ↔ ∀ d ∈ dicts l, Complete d := by
  have hall := forall₂_listPeers h
  rw [← forall₂_names_iff hall]
  constructor
  · rintro ⟨entries, hsub, hnames⟩
    -- there are as many peers as dictionaries, so none is left out
    have hlen : entries.length = (dicts l).length := by
      rw [hnames.length_eq, hall.length_eq]
    rwa [← hsub.eq_of_length hlen]
  · intro hnames
    exact ⟨dicts l, List.Sublist.refl _, hnames⟩

/-- **No peer of an accepted response is invented**, where the peers are a list, exactly if the
response reports a failure, so that there are no peers, or every dictionary of the list has an
address and a port from 0 to 65535. -/
theorem genuine_iff {data : List UInt8} (hdata : parse data = .ok (.dict d))
    (hl : d.lookup (ascii "peers") = some (.list l))
    (hr : TrackerClient.parseResponse garbage data = .ok r) :
    Genuine l r.peers ↔
      (d.lookup (ascii "failure reason")).isSome ∨ ∀ e, .dict e ∈ l → Complete e := by
  rw [parseResponse_of_parse hdata, readResponse] at hr
  rcases hfail : d.lookup (ascii "failure reason") with _ | v
  · rw [hfail] at hr
    obtain ⟨_, -, hr⟩ := bind_eq_ok hr
    obtain ⟨_, -, hr⟩ := bind_eq_ok hr
    obtain ⟨_, -, hr⟩ := bind_eq_ok hr
    obtain ⟨peers, hpeers, hr⟩ := bind_eq_ok hr
    cases hr
    rw [hl, readPeers] at hpeers
    have hmem : ∀ e, e ∈ dicts l ↔ .dict e ∈ l := by
      intro e
      rw [dicts, List.mem_filterMap]
      constructor
      · rintro ⟨v, hv, he⟩
        cases v with
        | dict e' =>
          cases he
          exact hv
        | int n => cases he
        | string str => cases he
        | list l' => cases he
      · exact fun he => ⟨_, he, rfl⟩
    simp only [genuine_listPeers_iff hpeers, hmem, Option.isSome_none, Bool.false_eq_true, false_or]
  · rw [hfail] at hr
    obtain ⟨reason, -, hr⟩ := bind_eq_ok hr
    cases hr
    exact iff_of_true ⟨[], List.nil_sublist _, .nil⟩ (Or.inl rfl)

/-- One dictionary with an address and a port. -/
theorem genuine_iff_one : Genuine [.dict [(ascii "ip", .string (ascii "h")),
    (ascii "port", .int 6881)]] [⟨⟨ascii "h", 6881⟩, []⟩] := by
  have hcomplete : ∀ e, BencodeValue.dict e ∈ [BencodeValue.dict
      [(ascii "ip", .string (ascii "h")), (ascii "port", .int 6881)]] → Complete e := by
    intro e he
    cases List.mem_singleton.mp he
    exact ⟨⟨ascii "h", rfl⟩, 6881, rfl, by decide, by decide⟩
  have hdata : parse (ascii "d5:peersld2:ip1:h4:porti6881eeee") = .ok (.dict [(ascii "peers",
      .list [.dict [(ascii "ip", .string (ascii "h")), (ascii "port", .int 6881)]])]) := rfl
  have hr : TrackerClient.parseResponse (fun _ => 0) (ascii "d5:peersld2:ip1:h4:porti6881eeee") =
    .ok { peers := [⟨⟨ascii "h", 6881⟩, []⟩] } := rfl
  exact (genuine_iff hdata rfl hr).mpr (Or.inr hcomplete)

/-- **A port that does not fit is cut down**: of port 65537, port 1 is made. -/
theorem not_genuine_port :
    parse (ascii "d5:peersld2:ip1:h4:porti65537eeee") = .ok (.dict [(ascii "peers",
        .list [.dict [(ascii "ip", .string (ascii "h")), (ascii "port", .int 65537)]])]) ∧
      TrackerClient.parseResponse (fun _ => 0) (ascii "d5:peersld2:ip1:h4:porti65537eeee") =
        .ok { peers := [⟨⟨ascii "h", 1⟩, []⟩] } ∧
      ¬Genuine [.dict [(ascii "ip", .string (ascii "h")), (ascii "port", .int 65537)]]
        [⟨⟨ascii "h", 1⟩, []⟩] := by
  refine ⟨rfl, rfl, ?_⟩
  have hpeers : listPeers (fun _ => 0) 0
      [.dict [(ascii "ip", .string (ascii "h")), (ascii "port", .int 65537)]] =
        .ok [⟨⟨ascii "h", 1⟩, []⟩] := rfl
  rw [genuine_listPeers_iff hpeers]
  intro h
  obtain ⟨-, n, hn, -, hhi⟩ := h _ List.mem_cons_self
  cases hn
  omega

end TrackerClient

end TransferEngine
