import TransferEngine.Client.Model
import TransferEngine.Lib.Bytes
import TransferEngine.TorrentFile.Model

/-!
# The tracker client

`TrackerClient` of `tracker_client.hpp`: the query it sends to an HTTP tracker, the two exchanges
it has with a UDP tracker, the three decoders of peer lists, and the loop that tries one tracker
after the other.

What libcurl, the resolver and the sockets do is in `TransferEngine.Network`, which may differ
from one tracker of the list to the next; how long the client waits for an answer is left out.
A member of `PeerInfo` that nothing has been assigned to has the value that happens to be there,
`TransferEngine.Network.garbage`.

An exception carries the data of its text (`TransferEngine.TrackerError.what`). That a scheme is
not supported is no exception in the source, but it is recorded next to them in the same way.
-/

namespace TransferEngine

open Bytes

/-- A peer that a tracker names. -/
structure PeerInfo extends Address where
  /-- Its identifier, which only some trackers send. -/
  id : List UInt8 := []
  deriving DecidableEq

/-- What a tracker answers. -/
structure TrackerResponse where
  /-- Seconds to the next announcement. -/
  interval : ℤ := 0
  /-- The number of seeders. -/
  complete : ℤ := 0
  /-- The number of leechers. -/
  incomplete : ℤ := 0
  /-- The peers. -/
  peers : List PeerInfo := []
  /-- Why the request failed; empty if it did not. -/
  failureReason : List UInt8 := []
  deriving DecidableEq

/-- What `TrackerClient` throws. -/
inductive TrackerError
  | parse (e : BencodeError)
  | rootNotDict
  | notString
  | notInt
  | compactLength
  | curlInit
  | httpFailed (reason : List UInt8)
  | httpCode (code : ℤ) (body : List UInt8)
  | invalidScheme (url : List UInt8)
  | dnsFailed (host reason : List UInt8)
  | socketFailed (reason : List UInt8)
  | setsockoptFailed (reason : List UInt8)
  | udpConnect (message : List UInt8)
  | notConnected
  | udpAnnounce (message : List UInt8)
  | notAnnounced
  | unsupportedScheme
  | allFailed (errors : List (List UInt8))
  deriving DecidableEq

/-- The number of attempts of each exchange with a UDP tracker. -/
def retryAttempts : ℕ := 3

/-- The text of an exception. -/
def TrackerError.what : TrackerError → List UInt8
  | .parse e => ascii "TrackerClient: failed to parse bencoded response: " ++ ascii e.what
  | .rootNotDict => ascii "TrackerClient: response root is not a bencoded dictionary"
  | .notString => ascii "BencodeValue: not a string"
  | .notInt => ascii "BencodeValue: not an integer"
  | .compactLength =>
    ascii "TrackerClient: compact peers string length must be a multiple of 6"
  | .curlInit => ascii "TrackerClient: failed to initialize curl handle"
  | .httpFailed reason => ascii "TrackerClient: HTTP request failed: " ++ reason
  | .httpCode code body => ascii "TrackerClient: HTTP response code " ++
      BencodeParser.toString code ++ ascii " (Response: " ++ body.take 200 ++ ascii ")"
  | .invalidScheme url => ascii "TrackerClient: invalid UDP tracker URL scheme: " ++ url
  | .dnsFailed host reason =>
    ascii "TrackerClient: DNS resolution failed for " ++ host ++ ascii ": " ++ reason
  | .socketFailed reason => ascii "TrackerClient: failed to create UDP socket: " ++ reason
  | .setsockoptFailed reason => ascii "TrackerClient: setsockopt failed: " ++ reason
  | .udpConnect message => ascii "TrackerClient: UDP connect error: " ++ message
  | .notConnected => ascii "TrackerClient: failed to connect to UDP tracker after " ++
      Decimal.ofNat retryAttempts ++ ascii " attempts"
  | .udpAnnounce message => ascii "TrackerClient: UDP announce error: " ++ message
  | .notAnnounced => ascii "TrackerClient: failed to announce to UDP tracker after " ++
      Decimal.ofNat retryAttempts ++ ascii " attempts"
  | .unsupportedScheme => ascii "unsupported scheme"
  | .allFailed errors => ascii "TrackerClient: announce failed for all trackers. Errors:\n" ++
      errors.flatMap fun e => ascii "  - " ++ e ++ ascii "\n"

/-- How an HTTP transfer ends. -/
inductive HttpOutcome
  /-- With an error of libcurl. -/
  | failed (reason : List UInt8)
  /-- With a response. -/
  | done (code : ℤ) (body : List UInt8)
  deriving DecidableEq

/-- How an attempt to exchange two datagrams ends. -/
inductive Exchange
  /-- The timeout cannot be set. -/
  | setsockoptFails (reason : List UInt8)
  /-- The request cannot be sent. -/
  | sendFails
  /-- No datagram arrives in time. -/
  | recvFails
  /-- A datagram arrives. -/
  | received (datagram : List UInt8)
  deriving DecidableEq

/-- **What is outside the client**, while it talks to one tracker. -/
structure Network where
  /-- Whether there is a curl handle. -/
  curlInit : Bool
  /-- The transfer from a URL. -/
  perform : List UInt8 → HttpOutcome
  /-- Why a host and a port cannot be resolved, if they cannot. -/
  resolve : List UInt8 → List UInt8 → Option (List UInt8)
  /-- Why there is no socket, if there is none. -/
  socket : Option (List UInt8)
  /-- The transaction number drawn for each attempt to connect. -/
  connectId : ℕ → UInt32
  /-- What comes of each attempt to connect. -/
  connect : ℕ → List UInt8 → Exchange
  /-- The key drawn for the announcement. -/
  key : UInt32
  /-- The transaction number drawn for each attempt to announce. -/
  announceId : ℕ → UInt32
  /-- What comes of each attempt to announce. -/
  announce : ℕ → List UInt8 → Exchange
  /-- The port of the `k`-th peer of a list, as long as nothing is assigned to it. -/
  garbage : ℕ → UInt16

/-- The arguments of an announcement. -/
structure AnnounceArgs where
  /-- The port we listen on. -/
  listeningPort : UInt16
  /-- Bytes uploaded. -/
  uploaded : UInt64
  /-- Bytes downloaded. -/
  downloaded : UInt64
  /-- Bytes left. -/
  left : UInt64
  /-- The event. -/
  event : Option (List UInt8) := none
  deriving DecidableEq

/-- **The client**: a torrent, and who we are. -/
structure TrackerClient where
  /-- The torrent. -/
  torrent : TorrentFile
  /-- Our identifier. -/
  peerId : Vector UInt8 20
  deriving DecidableEq

namespace TrackerClient

/-! ### The query -/

/-- `hex_chars`. -/
def hexChars : List UInt8 := ascii "0123456789abcdef"

/-- What `url_encode` appends for a byte. -/
def encodeByte (byte : UInt8) : List UInt8 :=
  if (0x30 ≤ byte ∧ byte ≤ 0x39) ∨ (0x61 ≤ byte ∧ byte ≤ 0x7a) ∨ (0x41 ≤ byte ∧ byte ≤ 0x5a) ∨
      byte = 0x2d ∨ byte = 0x5f ∨ byte = 0x2e ∨ byte = 0x7e then
    [byte]
  else
    [0x25, hexChars.getD (byte.toNat / 16) 0, hexChars.getD (byte.toNat % 16) 0]

/-- `url_encode`. -/
def urlEncode (data : List UInt8) : List UInt8 := data.flatMap encodeByte

/-- The event of a query, where there is one. -/
def eventQuery : Option (List UInt8) → List UInt8
  | some event => if event = [] then [] else ascii "&event=" ++ event
  | none => []

/-- **The URL of a query** to an HTTP tracker. -/
def queryUrl (c : TrackerClient) (args : AnnounceArgs) (baseUrl : List UInt8) : List UInt8 :=
  baseUrl ++ (if 0x3f ∈ baseUrl then ascii "&" else ascii "?") ++
    ascii "info_hash=" ++ urlEncode c.torrent.infoHash.toList ++
    ascii "&peer_id=" ++ urlEncode c.peerId.toList ++
    ascii "&port=" ++ Decimal.ofNat args.listeningPort.toNat ++
    ascii "&uploaded=" ++ Decimal.ofNat args.uploaded.toNat ++
    ascii "&downloaded=" ++ Decimal.ofNat args.downloaded.toNat ++
    ascii "&left=" ++ Decimal.ofNat args.left.toNat ++
    ascii "&compact=1" ++ eventQuery args.event

/-! ### The answer of an HTTP tracker -/

/-- `as_string`. -/
def asString : BencodeValue → Except TrackerError BencodeString
  | .string s => .ok s
  | _ => .error .notString

/-- `as_int`. -/
def asInt : BencodeValue → Except TrackerError ℤ
  | .int n => .ok n
  | _ => .error .notInt

/-- An optional field. -/
def field {α : Type} (get : BencodeValue → Except TrackerError α) (default : α) (key : String)
    (d : List (BencodeString × BencodeValue)) : Except TrackerError α :=
  match d.lookup (ascii key) with
  | none => .ok default
  | some v => get v

/-- Four bytes as a dotted quad. -/
def dotted (ip1 ip2 ip3 ip4 : UInt8) : List UInt8 :=
  Decimal.ofNat ip1.toNat ++ ascii "." ++ Decimal.ofNat ip2.toNat ++ ascii "." ++
    Decimal.ofNat ip3.toNat ++ ascii "." ++ Decimal.ofNat ip4.toNat

/-- The peer at index `i` of a compact string. -/
def compactPeer (s : List UInt8) (i : ℕ) : PeerInfo where
  ip := dotted (s.getD i 0) (s.getD (i + 1) 0) (s.getD (i + 2) 0) (s.getD (i + 3) 0)
  port := (s.getD (i + 4) 0).toUInt16 <<< 8 ||| (s.getD (i + 5) 0).toUInt16

/-- The loop over a compact string, six bytes at a time. Since the length is a multiple of six,
every index is in range. -/
def compactPeers (s : List UInt8) : Except TrackerError (List PeerInfo) :=
  if s.length % 6 ≠ 0 then .error .compactLength
  else .ok ((List.range (s.length / 6)).map fun k => compactPeer s (6 * k))

/-- A peer of a list: `static_cast<uint16_t>` takes the port modulo `2 ^ 16`. -/
def listPeer (garbage : UInt16) (d : List (BencodeString × BencodeValue)) :
    Except TrackerError PeerInfo := do
  let ip ← field asString [] "ip" d
  let port ← field (fun v => (asInt v).map UInt16.ofInt) garbage "port" d
  let id ← field asString [] "peer id" d
  return { ip, port, id }

/-- The loop over a list of peers, which passes over whatever is no dictionary. -/
def listPeers (garbage : ℕ → UInt16) : ℕ → List BencodeValue → Except TrackerError (List PeerInfo)
  | _, [] => .ok []
  | k, .dict d :: l => do
    let peer ← listPeer (garbage k) d
    let peers ← listPeers garbage (k + 1) l
    return peer :: peers
  | k, _ :: l => listPeers garbage (k + 1) l

/-- The peers of a response. -/
def readPeers (garbage : ℕ → UInt16) :
    Option BencodeValue → Except TrackerError (List PeerInfo)
  | some (.string s) => compactPeers s
  | some (.list l) => listPeers garbage 0 l
  | _ => .ok []

/-- The fields of a response. -/
def readResponse (garbage : ℕ → UInt16) (d : List (BencodeString × BencodeValue)) :
    Except TrackerError TrackerResponse :=
  match d.lookup (ascii "failure reason") with
  | some v => do
    let failureReason ← asString v
    return { failureReason }
  | none => do
    let interval ← field asInt 0 "interval" d
    let complete ← field asInt 0 "complete" d
    let incomplete ← field asInt 0 "incomplete" d
    let peers ← readPeers garbage (d.lookup (ascii "peers"))
    return { interval, complete, incomplete, peers }

/-- **`parse_response`.** -/
def parseResponse (garbage : ℕ → UInt16) (data : List UInt8) :
    Except TrackerError TrackerResponse := do
  match ← (BencodeParser.parse data).mapError .parse with
  | .dict d => readResponse garbage d
  | _ => .error .rootNotDict

/-- **`announce_http`.** The URL is handed on as a C string. -/
def announceHttp (net : Network) (c : TrackerClient) (args : AnnounceArgs) (baseUrl : List UInt8) :
    Except TrackerError TrackerResponse :=
  if net.curlInit = false then .error .curlInit
  else
    match net.perform ((c.queryUrl args baseUrl).takeWhile (· ≠ 0)) with
    | .failed reason => .error (.httpFailed reason)
    | .done code body =>
      if code ≠ 200 then .error (.httpCode code body) else parseResponse net.garbage body

/-! ### UDP trackers -/

/-- What comes of an attempt. -/
inductive Attempt (α : Type)
  /-- The next one is made. -/
  | again
  /-- It succeeded. -/
  | done (a : α)
  /-- It throws. -/
  | throw (e : TrackerError)

/-- The loop over the attempts, from attempt `k` on. -/
def attempts {α : Type} (attempt : ℕ → Attempt α) (failed : TrackerError) :
    ℕ → ℕ → Except TrackerError α
  | 0, _ => .error failed
  | left + 1, k =>
    match attempt k with
    | .again => attempts attempt failed left (k + 1)
    | .done a => .ok a
    | .throw e => .error e

/-- The number in the `n` bytes of a buffer from an index on. -/
def wordAt (buf : List UInt8) (off n : ℕ) : ℕ := bigEndian ((buf.drop off).take n)

/-- The size of the buffer for datagrams. -/
def bufferSize : ℕ := 65535

/-- One attempt: a datagram of at least `size` bytes with our transaction number and the action
asked for; action 3 is an error, with a message. -/
def exchange {α : Type} (e : Exchange) (transactionId : UInt32) (size action : ℕ)
    (onError : List UInt8 → TrackerError) (read : List UInt8 → α) : Attempt α :=
  match e with
  | .setsockoptFails reason => .throw (.setsockoptFailed reason)
  | .sendFails => .again
  | .recvFails => .again
  | .received datagram =>
    let respBuf := datagram.take bufferSize
    if respBuf.length < size then .again
    else if wordAt respBuf 4 4 ≠ transactionId.toNat then .again
    else if wordAt respBuf 0 4 = 3 then .throw (onError (respBuf.drop 8))
    else if wordAt respBuf 0 4 ≠ action then .again
    else .done (read respBuf)

/-- The bytes of a 64-bit number, the most significant first. -/
def uint64Bytes (n : UInt64) : List UInt8 :=
  uint32Bytes (n >>> 32).toUInt32 ++ uint32Bytes n.toUInt32

/-- The request to connect. -/
def connectRequest (transactionId : UInt32) : List UInt8 :=
  uint64Bytes 0x41727101980 ++ uint32Bytes 0 ++ uint32Bytes transactionId

/-- An attempt to connect, which yields the connection number. -/
def connectAttempt (net : Network) (k : ℕ) : Attempt UInt64 :=
  exchange (net.connect k (connectRequest (net.connectId k))) (net.connectId k) 16 0 .udpConnect
    fun respBuf => UInt64.ofNat (wordAt respBuf 8 8)

/-- The number of an event. -/
def eventNumber : Option (List UInt8) → UInt32
  | some event =>
    if event = ascii "completed" then 1
    else if event = ascii "started" then 2
    else if event = ascii "stopped" then 3
    else 0
  | none => 0

/-- The request to announce. -/
def announceRequest (c : TrackerClient) (args : AnnounceArgs) (connectionId : UInt64)
    (transactionId key : UInt32) : List UInt8 :=
  uint64Bytes connectionId ++ uint32Bytes 1 ++ uint32Bytes transactionId ++
    c.torrent.infoHash.toList ++ c.peerId.toList ++
    uint64Bytes args.downloaded ++ uint64Bytes args.left ++ uint64Bytes args.uploaded ++
    uint32Bytes (eventNumber args.event) ++ uint32Bytes 0 ++ uint32Bytes key ++
    uint32Bytes 0xFFFFFFFF ++ uint16Bytes args.listeningPort

/-- The peer at an offset of a datagram. -/
def udpPeer (respBuf : List UInt8) (off : ℕ) : PeerInfo where
  ip := dotted (respBuf.getD off 0) (respBuf.getD (off + 1) 0) (respBuf.getD (off + 2) 0)
    (respBuf.getD (off + 3) 0)
  port := UInt16.ofNat (wordAt respBuf (off + 4) 2)

/-- **The peer loop of `announce_udp`**: the peers start at byte 20, and bytes that are not enough
for one more are left. -/
def udpPeers (respBuf : List UInt8) : List PeerInfo :=
  (List.range ((respBuf.length - 20) / 6)).map fun i => udpPeer respBuf (20 + i * 6)

/-- The fields of an answer to an announcement. -/
def udpResponse (respBuf : List UInt8) : TrackerResponse where
  interval := wordAt respBuf 8 4
  incomplete := wordAt respBuf 12 4
  complete := wordAt respBuf 16 4
  peers := udpPeers respBuf

/-- An attempt to announce. -/
def announceAttempt (net : Network) (c : TrackerClient) (args : AnnounceArgs)
    (connectionId : UInt64) (k : ℕ) : Attempt TrackerResponse :=
  exchange
    (net.announce k (c.announceRequest args connectionId (net.announceId k) net.key))
    (net.announceId k) 20 1 .udpAnnounce udpResponse

/-- The host of a UDP URL, and its port: without one, 6969. -/
def hostPort (url : List UInt8) : List UInt8 × List UInt8 :=
  let hostPort := (url.drop 6).takeWhile (· ≠ 0x2f)
  let host := hostPort.takeWhile (· ≠ 0x3a)
  (host, if 0x3a ∈ hostPort then hostPort.drop (host.length + 1) else ascii "6969")

/-- **`announce_udp`.** -/
def announceUdp (net : Network) (c : TrackerClient) (args : AnnounceArgs) (url : List UInt8) :
    Except TrackerError TrackerResponse :=
  if (ascii "udp://").isPrefixOf url = false then .error (.invalidScheme url)
  else
    let (host, port) := hostPort url
    match net.resolve host port with
    | some reason => .error (.dnsFailed host reason)
    | none =>
      match net.socket with
      | some reason => .error (.socketFailed reason)
      | none => do
        let connectionId ← attempts (connectAttempt net) .notConnected retryAttempts 0
        attempts (c.announceAttempt net args connectionId) .notAnnounced retryAttempts 0

/-! ### All trackers -/

/-- What becomes of one tracker, by the scheme of its URL. -/
def tryTracker (net : Network) (c : TrackerClient) (args : AnnounceArgs) (url : List UInt8) :
    Except TrackerError TrackerResponse :=
  if (ascii "udp://").isPrefixOf url then c.announceUdp net args url
  else if (ascii "http://").isPrefixOf url ∨ (ascii "https://").isPrefixOf url then
    c.announceHttp net args url
  else .error .unsupportedScheme

/-- The loop over the trackers, from the `k`-th on: the trackers it tries, and how it ends. The text
of an error is appended as a C string, up to its first zero. -/
def announceLoop (net : ℕ → Network) (c : TrackerClient) (args : AnnounceArgs) :
    ℕ → List (List UInt8) → List (List UInt8) →
      List (List UInt8) × Except TrackerError TrackerResponse
  | _, errors, [] => ([], .error (.allFailed errors))
  | k, errors, url :: urls =>
    match c.tryTracker (net k) args url with
    | .ok response => ([url], .ok response)
    | .error e =>
      let (tried, result) :=
        announceLoop net c args (k + 1)
          (errors ++ [url ++ ascii ": " ++ e.what.takeWhile (· ≠ 0)]) urls
      (url :: tried, result)

/-- **`announce`.** -/
def announce (net : ℕ → Network) (c : TrackerClient) (args : AnnounceArgs) :
    List (List UInt8) × Except TrackerError TrackerResponse :=
  announceLoop net c args 0 [] c.torrent.announceList

end TrackerClient

end TransferEngine
