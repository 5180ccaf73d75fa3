import TransferEngine.Lib.Url
import TransferEngine.Tracker.Fallback
import TransferEngine.Tracker.Peers
import TransferEngine.Tracker.Query

/-!
# The exchange with an HTTP tracker

An HTTP tracker reads the parameters of a request off its URL and answers with a dictionary
(`TransferEngine.HttpTracker`). The URL of a tracker may have parameters of its own, such as the
key of a user, and the tracker is to see them as well.

So the tracker reads its own parameters and behind them exactly the arguments of the announcement,
and the client gets exactly what the tracker answers to them; an answer of which the end is missing
is never taken for another one. Only if the URL of the tracker has a fragment does the tracker see
nothing of the announcement (`TransferEngine.TrackerClient.announceHttp_reaches`).
-/

namespace TransferEngine

open BencodeParser Percent TrackerClient

/-! ### The tracker -/

/-- The answer of an HTTP tracker. -/
inductive HttpAnswer
  /-- The request is declined. -/
  | declined (reason : List UInt8)
  /-- The request is granted. -/
  | granted (interval complete incomplete : ℤ) (peers : List Ipv4Peer)
  deriving DecidableEq

/-- The dictionary that is sent. -/
def HttpAnswer.value : HttpAnswer → BencodeValue
  | .declined reason => .dict [(ascii "failure reason", .string reason)]
  | .granted interval complete incomplete peers => .dict
      [(ascii "complete", .int complete), (ascii "incomplete", .int incomplete),
        (ascii "interval", .int interval), (ascii "peers", .string (compact peers))]

/-- What the client is to make of it. -/
def HttpAnswer.response : HttpAnswer → TrackerResponse
  | .declined reason => { failureReason := reason }
  | .granted interval complete incomplete peers =>
    { interval, complete, incomplete, peers := peers.map fun p => { toAddress := p.address } }

/-- **An HTTP tracker**: its answers to the parameters of a request. -/
structure HttpTracker where
  /-- The answer to the parameters. -/
  respond : List Url.Parameter → HttpAnswer
  /-- Its numbers are within the range of the parser. -/
  bounded_respond : ∀ ps, (respond ps).value.Bounded leastInt

/-- The response to a request for a URL. -/
def HttpTracker.serve (t : HttpTracker) (url : List UInt8) : HttpOutcome :=
  match Url.parameters (Url.query url) with
  | some ps => .done 200 (encode (t.respond ps).value)
  | none => .done 400 []

/-- **The tracker is there**: what is requested of its resource, it serves. -/
structure HttpTracker.IsAt (t : HttpTracker) (resource : List UInt8) (net : Network) : Prop where
  /-- There is a curl handle. -/
  curlInit_eq : net.curlInit = true
  /-- The tracker is asked. -/
  perform_eq : ∀ url, Url.resource url = resource → net.perform url = t.serve url

namespace TrackerClient

variable {net : Network} {c : TrackerClient} {args : AnnounceArgs} {t : HttpTracker}
  {baseUrl : List UInt8} {garbage : ℕ → UInt16}

/-! ### The fields of the query -/

/-- The event, where there is one. -/
def eventParameter : Option (List UInt8) → List Url.Parameter
  | some event => if event = [] then [] else [(ascii "event", event)]
  | none => []

/-- **What the client means** by its announcement. -/
def announced (c : TrackerClient) (args : AnnounceArgs) : List Url.Parameter :=
  [(ascii "info_hash", c.torrent.infoHash.toList), (ascii "peer_id", c.peerId.toList),
    (ascii "port", Decimal.ofNat args.listeningPort.toNat),
    (ascii "uploaded", Decimal.ofNat args.uploaded.toNat),
    (ascii "downloaded", Decimal.ofNat args.downloaded.toNat),
    (ascii "left", Decimal.ofNat args.left.toNat), (ascii "compact", ascii "1")] ++
    eventParameter args.event

/-- A field of the query. -/
def queryField (name : String) (x : List UInt8) : List UInt8 := ascii name ++ 0x3d :: x

/-- The field of the event. -/
def eventField : Option (List UInt8) → List (List UInt8)
  | some event => if event = [] then [] else [queryField "event" event]
  | none => []

/-- The fields of the query behind the first one. -/
def queryFields (c : TrackerClient) (args : AnnounceArgs) : List (List UInt8) :=
  [queryField "peer_id" (urlEncode c.peerId.toList),
    queryField "port" (Decimal.ofNat args.listeningPort.toNat),
    queryField "uploaded" (Decimal.ofNat args.uploaded.toNat),
    queryField "downloaded" (Decimal.ofNat args.downloaded.toNat),
    queryField "left" (Decimal.ofNat args.left.toNat), queryField "compact" (ascii "1")] ++
    eventField args.event

/-- **The URL of a query, field by field.** -/
theorem queryUrl_eq (c : TrackerClient) (args : AnnounceArgs) (baseUrl : List UInt8) :
    c.queryUrl args baseUrl =
      baseUrl ++ (if 0x3f ∈ baseUrl then 0x26 else 0x3f) ::
        (queryField "info_hash" (urlEncode c.torrent.infoHash.toList) ++
          (c.queryFields args).flatMap (0x26 :: ·)) := by
  have hsep : (if 0x3f ∈ baseUrl then ascii "&" else ascii "?") =
      [if 0x3f ∈ baseUrl then 0x26 else 0x3f] := by
    split <;> decide
  have hevent : eventQuery args.event = (eventField args.event).flatMap (0x26 :: ·) := by
    rcases args.event with _ | event
    · rfl
    · rw [eventQuery, eventField]
      split
      · rfl
      · rw [List.flatMap_singleton]
        rfl
  have hfirst : ascii "info_hash=" = ascii "info_hash" ++ [0x3d] := by decide
  have hnames : ∀ name ∈ ["peer_id", "port", "uploaded", "downloaded", "left"],
      ascii ("&" ++ name ++ "=") = 0x26 :: (ascii name ++ [0x3d]) := by decide
  have hlast : ascii "&compact=1" = 0x26 :: queryField "compact" (ascii "1") := by decide
  rw [queryUrl, hsep, hevent, hfirst, hlast]
  have h₁ := hnames "peer_id" (by decide)
  have h₂ := hnames "port" (by decide)
  have h₃ := hnames "uploaded" (by decide)
  have h₄ := hnames "downloaded" (by decide)
  have h₅ := hnames "left" (by decide)
  simp only [String.reduceAppend] at h₁ h₂ h₃ h₄ h₅
  rw [h₁, h₂, h₃, h₄, h₅]
  simp [queryFields, queryField]

theorem spells_urlEncode {name : String} (hname : ∀ b ∈ ascii name, Unreserved b)
    (x : List UInt8) : Url.Spells (queryField name (urlEncode x)) (ascii name, x) :=
  Url.spells_append_cons hname (fun _ hb => of_mem_urlEncode hb) (decode_urlEncode x)

theorem spells_unreserved {name : String} {x : List UInt8} (hname : ∀ b ∈ ascii name, Unreserved b)
    (hx : ∀ b ∈ x, Unreserved b) : Url.Spells (queryField name x) (ascii name, x) :=
  Url.spells_append_cons hname (fun b hb => Or.inr (hx b hb)) (Url.decode_of_unreserved hx)

theorem unreserved_ofNat (n : ℕ) : ∀ b ∈ Decimal.ofNat n, Unreserved b := by
  intro b hb
  have hdigit := (Decimal.canonical_ofNat n).isDigit b hb
  rw [Decimal.isDigit, decide_eq_true_iff] at hdigit
  exact Or.inr (Or.inr (Or.inl hdigit))

theorem spells_eventField {event : Option (List UInt8)}
    (h : ∀ b ∈ event.getD [], Unreserved b) :
    List.Forall₂ Url.Spells (eventField event) (eventParameter event) := by
  rcases event with _ | event
  · exact .nil
  · rw [eventField, eventParameter]
    split
    · exact .nil
    · exact .cons (spells_unreserved (by decide +kernel) h) .nil

/-- **The fields spell what the client means.** -/
theorem spells_queryFields (c : TrackerClient) {args : AnnounceArgs}
    (h : ∀ b ∈ args.event.getD [], Unreserved b) :
    List.Forall₂ Url.Spells
      (queryField "info_hash" (urlEncode c.torrent.infoHash.toList) :: c.queryFields args)
      (c.announced args) :=
  .cons (spells_urlEncode (by decide +kernel) _) <|
  .cons (spells_urlEncode (by decide +kernel) _) <|
  .cons (spells_unreserved (by decide +kernel) (unreserved_ofNat _)) <|
  .cons (spells_unreserved (by decide +kernel) (unreserved_ofNat _)) <|
  .cons (spells_unreserved (by decide +kernel) (unreserved_ofNat _)) <|
  .cons (spells_unreserved (by decide +kernel) (unreserved_ofNat _)) <|
  .cons (spells_unreserved (by decide +kernel) (by decide +kernel)) <|
  spells_eventField h

/-! ### What the tracker reads -/

/-- The parameters in the URL of a tracker, if it has a query. -/
def ownParameters (baseUrl : List UInt8) : Option (List Url.Parameter) :=
  if 0x3f ∈ baseUrl then Url.parameters (Url.query baseUrl) else some []

/-- What is behind the URL of the tracker and its separator. -/
def queryTail (c : TrackerClient) (args : AnnounceArgs) : List UInt8 :=
  queryField "info_hash" (urlEncode c.torrent.infoHash.toList) ++
    (c.queryFields args).flatMap (0x26 :: ·)

/-- There is no other delimiter in it than those of the fields. -/
theorem plain_of_mem_queryTail (hevent : ∀ b ∈ args.event.getD [], Unreserved b) {b : UInt8}
    (hb : b ∈ c.queryTail args) : b = 0x26 ∨ Url.Plain b := by
  refine Url.plain_of_mem_flatMap (spells_queryFields c hevent) ?_
  rw [List.flatMap_cons, List.cons_append]
  exact List.mem_cons_of_mem _ hb

theorem not_mem_queryTail (hevent : ∀ b ∈ args.event.getD [], Unreserved b) {b : UInt8}
    (hne : b ≠ 0x26) (hplain : ¬Url.Plain b) : b ∉ c.queryTail args :=
  fun hb => (plain_of_mem_queryTail hevent hb).elim hne hplain

/-- The query asks for the resource of the tracker. -/
theorem resource_queryUrl (c : TrackerClient) (args : AnnounceArgs) (baseUrl : List UInt8)
    (hevent : ∀ b ∈ args.event.getD [], Unreserved b) :
    Url.resource (c.queryUrl args baseUrl) = Url.resource baseUrl := by
  rw [queryUrl_eq, ← queryTail]
  by_cases hfrag : 0x23 ∈ baseUrl
  · rw [Url.resource, Url.sent_append_of_mem hfrag, Url.resource]
  · have htail : 0x23 ∉ (if 0x3f ∈ baseUrl then 0x26 else 0x3f) :: c.queryTail args := by
      rw [List.mem_cons, not_or]
      exact ⟨by split <;> decide, not_mem_queryTail hevent (by decide) (by decide)⟩
    rw [Url.resource, Url.sent_of_not_mem (by rw [List.mem_append, not_or]; exact ⟨hfrag, htail⟩),
      Url.resource, Url.sent_of_not_mem hfrag]
    split
    case isTrue hmark => rw [Url.before_append_of_mem hmark]
    case isFalse hmark => rw [Url.before_append_cons hmark, Url.before_of_not_mem hmark]

/-- **The tracker reads its own parameters, and behind them the announcement.** -/
theorem parameters_queryUrl (c : TrackerClient) (hfrag : 0x23 ∉ baseUrl)
    (hevent : ∀ b ∈ args.event.getD [], Unreserved b) :
    Url.parameters (Url.query (c.queryUrl args baseUrl)) =
      (ownParameters baseUrl).map (· ++ c.announced args) := by
  have hspells := spells_queryFields c hevent
  have htail : 0x23 ∉ c.queryTail args := not_mem_queryTail hevent (by decide) (by decide)
  have hsent : ∀ sep : UInt8, sep ≠ 0x23 →
      Url.sent (baseUrl ++ sep :: c.queryTail args) = baseUrl ++ sep :: c.queryTail args := by
    intro sep hsep
    refine Url.sent_of_not_mem fun hmem => ?_
    rcases List.mem_append.mp hmem with hmem | hmem
    · exact hfrag hmem
    · rcases List.mem_cons.mp hmem with heq | hmem
      · exact hsep heq.symm
      · exact htail hmem
  rw [queryUrl_eq, ← queryTail, ownParameters, Url.query]
  split
  case isTrue hmark =>
    -- the query of the tracker goes on
    rw [hsent _ (by decide), Url.behind_append_of_mem hmark, Url.query, Url.sent_of_not_mem hfrag,
      ← Url.parameters_append hspells]
    rfl
  case isFalse hmark =>
    -- the query starts
    rw [hsent _ (by decide), Url.behind_append_cons hmark, Option.map_some, List.nil_append]
    cases hspells with
    | cons hfirst hrest =>
      rw [queryTail, Url.parameters_append hrest, Url.parameters_field hfirst, Option.map_some]
      rfl

/-- **Behind a fragment, the tracker reads nothing of the announcement.** -/
theorem query_queryUrl_of_mem (c : TrackerClient) (args : AnnounceArgs)
    (hfrag : 0x23 ∈ baseUrl) :
    Url.query (c.queryUrl args baseUrl) = Url.query baseUrl := by
  rw [queryUrl_eq, Url.query, Url.sent_append_of_mem hfrag, Url.query]

/-- No byte of the URL ends it. -/
theorem takeWhile_queryUrl (c : TrackerClient) (hnul : 0 ∉ baseUrl)
    (hevent : ∀ b ∈ args.event.getD [], Unreserved b) :
    (c.queryUrl args baseUrl).takeWhile (· ≠ 0) = c.queryUrl args baseUrl := by
  refine Url.before_of_not_mem fun hmem => ?_
  rw [queryUrl_eq, ← queryTail] at hmem
  rcases List.mem_append.mp hmem with hmem | hmem
  · exact hnul hmem
  · rcases List.mem_cons.mp hmem with heq | hmem
    · split at heq <;> exact absurd heq (by decide)
    · exact not_mem_queryTail hevent (by decide) (by decide) hmem

/-! ### What the client makes of the answer -/

/-- **The client makes of an answer what it is to make of it.** -/
theorem parseResponse_value {a : HttpAnswer} (h : a.value.Bounded leastInt) :
    parseResponse garbage (encode a.value) = .ok a.response := by
  have hparse : parse (encode a.value) = .ok a.value := parse_eq_ok.mpr ⟨rfl, h⟩
  cases a with
  | declined reason =>
    rw [HttpAnswer.value] at hparse ⊢
    rw [parseResponse_of_parse hparse, readResponse, List.lookup_cons, beq_self_eq_true]
    rfl
  | granted interval complete incomplete peers =>
    obtain ⟨read, hread, hmap⟩ := compactPeers_compact peers
    have hpeers : read = peers.map fun p => { toAddress := p.address } := by
      rw [eq_map_of_toAddress ?_ hmap, List.map_map]
      · rfl
      · intro p hp
        rw [compactPeers] at hread
        split at hread
        · cases hread
        · rw [← Except.ok.inj hread] at hp
          obtain ⟨i, -, rfl⟩ := List.mem_map.mp hp
          rfl
    rw [HttpAnswer.value] at hparse ⊢
    rw [parseResponse_of_parse hparse, readResponse]
    generalize hd : [(ascii "complete", BencodeValue.int complete),
      (ascii "incomplete", .int incomplete), (ascii "interval", .int interval),
      (ascii "peers", .string (compact peers))] = d
    have hfail : d.lookup (ascii "failure reason") = none := by rw [← hd]; rfl
    have hcomplete : d.lookup (ascii "complete") = some (.int complete) := by rw [← hd]; rfl
    have hincomplete : d.lookup (ascii "incomplete") = some (.int incomplete) := by rw [← hd]; rfl
    have hinterval : d.lookup (ascii "interval") = some (.int interval) := by rw [← hd]; rfl
    have hlist : d.lookup (ascii "peers") = some (.string (compact peers)) := by rw [← hd]; rfl
    rw [hfail, field_of_some hcomplete, field_of_some hincomplete, field_of_some hinterval, hlist,
      readPeers, hread, hpeers]
    rfl

/-! ### The exchange -/

/-- What comes of a response to the query. -/
theorem announceHttp_eq (hcurl : net.curlInit = true) (hnul : 0 ∉ baseUrl)
    (hevent : ∀ b ∈ args.event.getD [], Unreserved b) {body : List UInt8}
    (hbody : net.perform (c.queryUrl args baseUrl) = .done 200 body) :
    c.announceHttp net args baseUrl = parseResponse net.garbage body := by
  rw [announceHttp, if_neg (by rw [hcurl]; decide), takeWhile_queryUrl c hnul hevent, hbody]
  rfl

/-- **The exchange with an HTTP tracker.** It reads its own parameters and, behind them, exactly the
arguments of the announcement, and the client has its answer to them, whether it is granted or
declined; if the end of that answer is missing, the client throws. Behind a fragment, the tracker
reads its own parameters only, and the client has the answer to these. -/
theorem announceHttp_reaches (h : t.IsAt (Url.resource baseUrl) net) (hnul : 0 ∉ baseUrl)
    (hevent : ∀ b ∈ args.event.getD [], Unreserved b) :
    (0x23 ∉ baseUrl → ∀ own, ownParameters baseUrl = some own →
      c.announceHttp net args baseUrl = .ok (t.respond (own ++ c.announced args)).response ∧
      ∀ net' : Network, net'.curlInit = true →
        ∀ n < (encode (t.respond (own ++ c.announced args)).value).length,
          net'.perform (c.queryUrl args baseUrl) =
            .done 200 ((encode (t.respond (own ++ c.announced args)).value).take n) →
          ∃ e, c.announceHttp net' args baseUrl = .error (.parse e)) ∧
    (0x23 ∈ baseUrl → ∀ own, Url.parameters (Url.query baseUrl) = some own →
      c.announceHttp net args baseUrl = .ok (t.respond own).response) := by
  have hserve := h.perform_eq _ (resource_queryUrl c args baseUrl hevent)
  rw [HttpTracker.serve] at hserve
  refine ⟨fun hfrag own hown => ⟨?_, fun net' hcurl n hn hcut => ?_⟩, fun hfrag own hown => ?_⟩
  · rw [parameters_queryUrl c hfrag hevent, hown, Option.map_some] at hserve
    rw [announceHttp_eq h.curlInit_eq hnul hevent hserve, parseResponse_value (t.bounded_respond _)]
  · obtain ⟨e, he⟩ := exists_parse_take_eq_error (t.bounded_respond (own ++ c.announced args)) hn
    refine ⟨e, ?_⟩
    rw [announceHttp_eq hcurl hnul hevent hcut, parseResponse, he]
    rfl
  · rw [query_queryUrl_of_mem c args hfrag, hown] at hserve
    rw [announceHttp_eq h.curlInit_eq hnul hevent hserve, parseResponse_value (t.bounded_respond _)]

/-- A tracker with one peer, which it names to those who know a key. -/
def keyed : HttpTracker where
  respond := fun ps =>
    if ps.lookup (ascii "key") = some (ascii "k 1") then .granted 1800 1 0 [⟨10, 0, 0, 1, 6881⟩]
    else .declined (ascii "unknown key")
  bounded_respond := fun ps => by
    split
    · refine .dict _ (by decide) (by decide) fun e he => ?_
      simp only [List.mem_cons, List.not_mem_nil, or_false] at he
      rcases he with rfl | rfl | rfl | rfl
      · exact .int _ (by decide) (by decide)
      · exact .int _ (by decide) (by decide)
      · exact .int _ (by decide) (by decide)
      · exact .string _ (by decide)
    · refine .dict _ (List.pairwise_singleton _ _) (by decide) fun e he => ?_
      rw [List.mem_singleton.mp he]
      exact .string _ (by decide)

/-- A network with this tracker. -/
def serving : Network where
  curlInit := true
  perform := keyed.serve
  resolve := fun _ _ => none
  socket := none
  connectId := fun _ => 0
  connect := fun _ _ => .recvFails
  key := 0
  announceId := fun _ => 0
  announce := fun _ _ => .recvFails
  garbage := fun _ => 0

theorem isAt_serving (resource : List UInt8) : keyed.IsAt resource serving where
  curlInit_eq := rfl
  perform_eq := fun _ _ => rfl

/-- The URL of the tracker, with a key. -/
def keyedUrl : List UInt8 := ascii "http://t/a?key=k%201"

/-- An announcement of a start. -/
def starting : AnnounceArgs := ⟨6881, 0, 0, 1, some (ascii "started")⟩

/-- The key in the URL of the tracker arrives, and with it the announcement. -/
theorem announceHttp_reaches_keyed :
    twoTrackers.announceHttp serving starting keyedUrl =
      .ok { interval := 1800, complete := 1,
            peers := [{ ip := ascii "10.0.0.1", port := 6881 }] } := by
  have hown : ownParameters keyedUrl = some [(ascii "key", ascii "k 1")] := by decide +kernel
  have hnul : 0 ∉ keyedUrl := by decide
  have hfrag : 0x23 ∉ keyedUrl := by decide
  have hevent : ∀ b ∈ starting.event.getD [], Unreserved b := by decide +kernel
  have hreach := announceHttp_reaches (c := twoTrackers) (isAt_serving (Url.resource keyedUrl))
    hnul hevent
  have hanswer := (hreach.1 hfrag _ hown).1
  have hlookup : ∀ ps : List Url.Parameter,
      ((ascii "key", ascii "k 1") :: ps).lookup (ascii "key") = some (ascii "k 1") := fun ps => by
    rw [List.lookup_cons, beq_self_eq_true]
  have hrespond : ∀ ps, keyed.respond ((ascii "key", ascii "k 1") :: ps) =
      .granted 1800 1 0 [⟨10, 0, 0, 1, 6881⟩] := fun ps => by
    simp only [keyed, hlookup, if_true]
  rw [List.singleton_append, hrespond] at hanswer
  exact hanswer

end TrackerClient

end TransferEngine
