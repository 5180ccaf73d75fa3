import TransferEngine.Coordinator.Completion
import TransferEngine.PieceManager.Assembly

/-!
# Who is blamed for a bad piece

A piece may be put together from blocks of many peers. It is checked when the last of them
comes in, no record is kept of who sent what, and the peer whose block was the last is
blamed for it all (`TransferEngine.Coordinator.not_unblamed_lastBlock`).

So an honest peer is safe exactly as long as it never finishes a piece in which somebody
else has left false bytes (`TransferEngine.Coordinator.InheritsTrue`), and under this
condition an honest peer is never blamed (`TransferEngine.Coordinator.honest_unblamed`).
-/

namespace TransferEngine

/-- **The true content of a torrent**: bytes for every piece, of its length and with its
digest. -/
structure Content (T : Torrent) (sha1 : List UInt8 → Digest) where
  /-- The bytes of each piece. -/
  bytes : ℕ → List UInt8
  /-- A piece has as many bytes as its length says. -/
  length_eq : ∀ i < T.count, (bytes i).length = T.getPieceLength i
  /-- A piece has the digest of the metadata. -/
  digest_eq : ∀ i < T.count, T.pieceHashes[i]? = some (sha1 (bytes i))

namespace Coordinator

variable {T : Torrent} {s s' : State T} {env : Env} {a : Input} {p : PeerId} {l : List Input}
  {sha1 : List UInt8 → Digest}

/-- Every block that the peer sent in a run was a block of the true content. -/
def Honest (D : Content T sha1) (p : PeerId) (l : List Input) : Prop :=
  ∀ idx c x, .message p (.pieceMsg idx c x) ∈ l →
    TrueBlock T idx.toNat (D.bytes idx.toNat) c.toNat x

/-- **A peer that has been honest so far inherits only true bytes**: if its block completes
a piece, the blocks received of that piece before hold their true bytes. The list is the
run so far. -/
def InheritsTrue (D : Content T sha1) (l : List Input) (s : State T) (a : Input) : Prop :=
  ∀ p idx c x state pm, a = .message p (.pieceMsg idx c x) → Honest D p (l ++ [a]) →
    (s.connections p).state = .active → s.peers.lookup p = some state →
    s.pieceManager.blockReceived idx.toNat c.toNat x = (true, pm) →
    ∀ st, s.pieceManager.inProgress idx.toNat = some st → st.Holds (D.bytes idx.toNat)

/-- A step blames a peer only in its head, and only the sender of the block. -/
theorem blamed_of_step (h : .peerCorrupted p ∈ (step env s a).trace) :
    .peerCorrupted p ∈ s.trace ∨
      ∃ idx c x state pm, a = .message p (.pieceMsg idx c x) ∧
        (s.connections p).state = .active ∧ s.peers.lookup p = some state ∧
        s.pieceManager.blockReceived idx.toNat c.toNat x = (true, pm) ∧
        pm.validatePiece env.sha1 (env.garbage idx.toNat) idx.toNat = false := by
  obtain ⟨new, hnew, hfollows⟩ := (moves_step env s a).trace_eq
  have hfault : ∀ i, .peerCorrupted p ∈ hashFault T i ++ s.trace → .peerCorrupted p ∈ s.trace := by
    intro i hi
    rw [hashFault] at hi
    split at hi
    case isTrue => exact hi
    case isFalse => simpa using hi
  rw [hnew, List.mem_append] at h
  rcases h with h | h
  -- the moves that follow blame nobody
  · obtain ⟨tr, htr⟩ := hfollows _ h
    exact htr.elim
  · rcases (head_spec env s a).trace_cases with ⟨-, htr⟩ |
      ⟨q, idx, c, x, state, pm, he, hact, hp, hb, hv, -, htr⟩ |
      ⟨q, idx, c, x, state, pm, tr, outcome, -, -, -, -, -, -, htr, -, htr'⟩
    · exact Or.inl (htr ▸ h)
    · rw [htr, List.mem_cons] at h
      rcases h with heq | h
      · cases heq
        exact Or.inr ⟨idx, c, x, state, pm, he, hact, hp, hb, hv⟩
      · exact Or.inl (hfault _ h)
    · rw [htr', htr] at h
      simp only [List.mem_cons, reduceCtorEq, false_or] at h
      exact Or.inl (hfault _ h)

/-- **Honest peers are never blamed** in a run in which a peer that has been honest so far
never completes a piece that holds false bytes. -/
theorem honest_unblamed (env : Env) (disk : Disk) (D : Content T env.sha1) (l : List Input)
    (hl : Runs.Along l fun l₁ a => InheritsTrue D l₁ (run env disk l₁) a) :
    ∀ p, Honest D p l → .peerCorrupted p ∉ (run env disk l : State T).trace := by
  induction l using List.reverseRecOn with
  | nil => exact fun p _ h => nomatch h
  | append_singleton l a ih =>
    intro p hp hblame
    obtain ⟨hl, ha⟩ := Runs.along_snoc.mp hl
    have hprev : .peerCorrupted p ∉ (run env disk l : State T).trace :=
      ih hl p fun idx c x hmem => hp idx c x (List.mem_append_left _ hmem)
    rw [run, List.foldl_append] at hblame
    rcases blamed_of_step hblame with h | ⟨idx, c, x, state, pm, rfl, hact, hlook, hb, hv⟩
    · exact hprev h
    · -- the block is true, and so is what the piece held: it passes its check
      have hok := (verified_run env disk l : Verified (run env disk l : State T)).ok
      have hheld := ha p idx c x state pm rfl hp hact hlook hb
      have htrue := hp idx c x (List.mem_append_right _ (List.mem_singleton_self _))
      have hlt : idx.toNat < T.count := by
        obtain ⟨b, hmem, -⟩ := htrue
        refine Torrent.lt_count_of_getPieceLength fun hz => ?_
        rw [PieceManager.freshBlocks_eq_nil_iff.mpr hz] at hmem
        cases hmem
      have hgood := PieceManager.validatePiece_of_holds (g := env.garbage idx.toNat) hok hheld
        (D.length_eq _ hlt) (D.digest_eq _ hlt) htrue hb
      rw [hgood] at hv
      cases hv

/-! ### Two blocks of two peers -/

/-- SHA-1 on two strings of 16385 bytes: the content of `TransferEngine.Torrent.twoBlocks`, and
zeros. -/
def twoBlocksDigest (d : List UInt8) : Digest :=
  if d.head? = some 1 then
    .ofBytes [0x0c, 0x66, 0xb4, 0x9a, 0x5d, 0xfc, 0x46, 0x9a, 0xf5, 0xe8,
      0xd3, 0xda, 0xc1, 0x43, 0xa3, 0xee, 0x4a, 0xd4, 0x49, 0x09]
  else
    .ofBytes [0x3b, 0x94, 0x30, 0x63, 0x48, 0x27, 0x2b, 0x25, 0x60, 0x8f,
      0x5a, 0x3e, 0x17, 0xce, 0xd9, 0x7c, 0xcc, 0xcd, 0x80, 0x31]

/-- The content of the torrent of two blocks. -/
def contentTwoBlocks : Content Torrent.twoBlocks twoBlocksDigest where
  bytes := fun _ => Torrent.bytesTwoBlocks
  length_eq := by
    intro i hi
    obtain rfl : i = 0 := Nat.lt_one_iff.mp hi
    rw [Torrent.bytesTwoBlocks, List.length_cons, List.length_replicate]
    decide
  digest_eq := by decide

/-- Peer 9 sends the last block, and then peer 8 the first one, both true. -/
def trueBlocksRun : List Input :=
  arrival 8 ++ arrival 9 ++ [.message 9 (.pieceMsg 0 16384 [0]),
    .message 8 (.pieceMsg 0 0 (1 :: List.replicate 16383 0))]

theorem honest_trueBlocksRun (p : PeerId) : Honest contentTwoBlocks p trueBlocksRun := by
  intro idx c x hmem
  have hblock : (p = 9 ∧ idx = 0 ∧ c = 16384 ∧ x = [0]) ∨
      (p = 8 ∧ idx = 0 ∧ c = 0 ∧ x = 1 :: List.replicate 16383 0) := by
    simpa only [trueBlocksRun, arrival, List.cons_append, List.nil_append, List.mem_cons,
      Input.message.injEq, PeerMessage.pieceMsg.injEq, reduceCtorEq, and_false, false_or,
      List.not_mem_nil, or_false] using hmem
  rcases hblock with ⟨-, rfl, rfl, rfl⟩ | ⟨-, rfl, rfl, rfl⟩
  · exact trueBlock_last
  · exact trueBlock_first

/-- The block of peer 8 completes a piece that holds the true block of peer 9. -/
theorem honest_unblamed_twoBlocks :
    .peerCorrupted 8 ∉ (run { Env.calm with sha1 := twoBlocksDigest } (fun _ => none)
      trueBlocksRun : State Torrent.twoBlocks).trace ∧
    .peerCorrupted 9 ∉ (run { Env.calm with sha1 := twoBlocksDigest } (fun _ => none)
      trueBlocksRun : State Torrent.twoBlocks).trace := by
  suffices hblame : ∀ p, .peerCorrupted p ∉
      (run { Env.calm with sha1 := twoBlocksDigest } (fun _ => none) trueBlocksRun :
        State Torrent.twoBlocks).trace from ⟨hblame 8, hblame 9⟩
  intro p
  refine honest_unblamed { Env.calm with sha1 := twoBlocksDigest } (fun _ => none)
    contentTwoBlocks trueBlocksRun ?_ p (honest_trueBlocksRun p)
  have hsplit : trueBlocksRun = (arrival 8 ++ arrival 9 ++ [.message 9 (.pieceMsg 0 16384 [0])]) ++
      [.message 8 (.pieceMsg 0 0 (1 :: List.replicate 16383 0))] := by
    rw [trueBlocksRun, List.append_assoc _ [_] [_], List.singleton_append]
  rw [hsplit]
  refine Runs.along_snoc.mpr ⟨Runs.along_snoc.mpr ⟨?_, ?_⟩, ?_⟩
  · rintro l₁ a l₂ hl p idx c x state pm rfl
    have hmem : Input.message p (.pieceMsg idx c x) ∈ arrival 8 ++ arrival 9 := by
      rw [hl]
      exact List.mem_append_right _ List.mem_cons_self
    simp [arrival] at hmem
  · -- when the last block comes in, nothing has been received yet
    rintro p idx c x state pm ⟨⟩ - - - - st hst b hb hrec
    have hnone : ((run { Env.calm with sha1 := twoBlocksDigest } (fun _ => none)
        (arrival 8 ++ arrival 9) : State Torrent.twoBlocks).pieceManager.inProgress
          (0 : UInt32).toNat).all (fun st => st.blocks.all (·.state != .received)) = true := by
      decide +kernel
    have hall := List.all_eq_true.mp ((Option.all_eq_true _ _).mp hnone st hst) b hb
    simp [hrec] at hall
  · -- when the first one does, the last byte is there
    rintro p idx c x state pm ⟨⟩ - - - - st hst b hb hrec k hk hk'
    have hlast : ((run { Env.calm with sha1 := twoBlocksDigest } (fun _ => none)
        (arrival 8 ++ arrival 9 ++ [.message 9 (.pieceMsg 0 16384 [0])]) :
          State Torrent.twoBlocks).pieceManager.inProgress (0 : UInt32).toNat).all
            (fun st => st.data[16384]? == some 0 && st.blocks.all fun b =>
              b.state != .received || b.begin == 16384 && b.length == 1) = true := by
      decide +kernel
    have hboth := (Option.all_eq_true _ _).mp hlast st hst
    rw [Bool.and_eq_true] at hboth
    obtain ⟨hdata, hblocks⟩ := hboth
    obtain ⟨hbegin, hlength⟩ : b.begin = 16384 ∧ b.length = 1 := by
      simpa [hrec] using List.all_eq_true.mp hblocks b hb
    obtain rfl : k = 16384 := by omega
    rw [eq_of_beq hdata]
    show some 0 = (1 :: List.replicate 16384 0)[16384]?
    rw [List.getElem?_cons_succ, List.getElem?_replicate_of_lt (by decide)]

/-! ### The last block -/

/-- Peer 8 sends an empty first block, peer 9 the true last block. -/
def lastBlockRun : List Input :=
  [.establish 8, .register 8, .establish 9, .register 9,
    .message 8 (.pieceMsg 0 0 []), .message 9 (.pieceMsg 0 16384 [0])]

/-- **The last block takes the blame.** The empty block of peer 8 is accepted, and when the
last block comes in, peer 9 is passed to `on_peer_corrupted`. -/
theorem not_unblamed_lastBlock :
    ¬∀ p, Honest contentTwoBlocks p lastBlockRun →
      .peerCorrupted p ∉ (run { Env.calm with sha1 := twoBlocksDigest } (fun _ => none)
        lastBlockRun : State Torrent.twoBlocks).trace := by
  intro h
  refine h 9 (fun idx c x hmem => ?_) (by decide +kernel)
  have hblock : idx = 0 ∧ c = 16384 ∧ x = [0] := by simpa [lastBlockRun] using hmem
  obtain ⟨rfl, rfl, rfl⟩ := hblock
  exact trueBlock_last

end Coordinator

end TransferEngine
