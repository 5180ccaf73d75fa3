import TransferEngine.Lib.Paths
import TransferEngine.TorrentFile.WellFormed

/-!
# The output directory

The path of a file is joined to the output directory as it stands in the torrent file. Whatever
the directory, the file lies in it exactly if its path, on its own, is relative and leads inwards
(`TransferEngine.TorrentFile.contained_iff`): nothing keeps a torrent file from naming any other
file (`TransferEngine.TorrentFile.not_contained_dotdot`).
-/

namespace TransferEngine

open Paths BencodeParser DiskIOManager

namespace TorrentFile

/-- What a component of a path does. -/
def component (w : List UInt8) : Step (List UInt8) :=
  if w = [] ∨ w = ascii "." then .stay
  else if w = ascii ".." then .up
  else .down w

/-- The walk of a path. -/
def walk (path : List UInt8) : List (Step (List UInt8)) := (path.splitOn 0x2f).map component

/-- `std::filesystem::path::lexically_normal`. -/
def lexicallyNormal (path : List UInt8) : Normal (List UInt8) :=
  normal (path.head? = some 0x2f) (walk path)

/-- **The file is in the directory**, properly below it. -/
def Contained (base path : List UInt8) : Prop :=
  (lexicallyNormal (getFullPath base path)).Below (lexicallyNormal base)

/-- The path is relative, and leads inwards. -/
def Inward (path : List UInt8) : Prop :=
  path.head? ≠ some 0x2f ∧ (lexicallyNormal path).Inner

variable {base path : List UInt8}

theorem walk_append (b rel : List UInt8) : walk (b ++ 0x2f :: rel) = walk b ++ walk rel := by
  rw [walk, List.splitOn, List.splitOnP_append_cons _ _ (by decide), List.map_append]
  rfl

/-- **Joining two paths** walks the one and then the other. -/
theorem lexicallyNormal_getFullPath (hrel : path.head? ≠ some 0x2f) (base : List UInt8) :
    lexicallyNormal (getFullPath base path) =
      (walk path).foldl Normal.go (lexicallyNormal base) := by
  rw [getFullPath, if_neg hrel]
  split
  case isTrue hbase =>
    rcases hbase with rfl | hlast
    · rw [List.nil_append, lexicallyNormal, decide_eq_false hrel]
      rfl
    · obtain ⟨b, rfl⟩ := List.getLast?_eq_some_iff.mp hlast
      have hhead : (b ++ [0x2f] ++ path).head? = (b ++ [0x2f]).head? := by
        cases b <;> rfl
      rw [lexicallyNormal, lexicallyNormal, hhead, List.append_assoc, List.singleton_append,
        walk_append, walk_append, normal, List.foldl_append, normal, List.foldl_append]
      rfl
  case isFalse hbase =>
    have hne : base ≠ [] := fun hnil => hbase (Or.inl hnil)
    rw [lexicallyNormal, List.head?_append_of_ne_nil _ hne, walk_append, normal,
      List.foldl_append, ← normal, ← lexicallyNormal]

theorem length_le_of_mem_splitOn {w : List UInt8} (h : w ∈ path.splitOn 0x2f) :
    w.length ≤ path.length := by
  rw [List.splitOn] at h
  induction path generalizing w with
  | nil => simp_all
  | cons b path ih =>
    rw [List.splitOnP_cons_eq_if_modifyHead] at h
    split at h
    case isTrue =>
      rcases List.mem_cons.mp h with rfl | h
      · exact Nat.zero_le _
      · exact (ih h).trans (Nat.le_succ _)
    case isFalse =>
      rcases hs : path.splitOnP (· == 0x2f) with _ | ⟨w₀, ws⟩
      · rw [hs] at h
        cases h
      · rw [hs, List.modifyHead_cons] at h
        rw [hs] at ih
        rcases List.mem_cons.mp h with rfl | h
        · have := ih List.mem_cons_self
          simpa using this
        · exact (ih (List.mem_cons_of_mem _ h)).trans (Nat.le_succ _)

/-- A name that is too long to come up in a path. -/
def stranger (path : List UInt8) : List UInt8 := List.replicate (path.length + 3) 0x61

theorem lexicallyNormal_stranger (path : List UInt8) :
    lexicallyNormal (stranger path) = { absolute := false, names := [stranger path] } := by
  have hne : stranger path ≠ [] ∧ stranger path ≠ ascii "." ∧ stranger path ≠ ascii ".." := by
    refine ⟨?_, ?_, ?_⟩ <;> intro hc <;> have := congrArg List.length hc <;>
      simp [stranger, ascii] at this
  have hwalk : walk (stranger path) = [.down (stranger path)] := by
    have hslash : ∀ b ∈ stranger path, (b == 0x2f) = false := by
      intro b hb
      rw [List.eq_of_mem_replicate hb]
      rfl
    rw [walk, List.splitOn, List.splitOnP_eq_singleton hslash, List.map_singleton, component,
      if_neg (by simp [hne]), if_neg hne.2.2]
  rw [lexicallyNormal, hwalk]
  rfl

theorem down_stranger_notMem (path : List UInt8) : Step.down (stranger path) ∉ walk path := by
  intro hmem
  obtain ⟨w, hw, hc⟩ := List.mem_map.mp hmem
  have hlen := length_le_of_mem_splitOn hw
  rw [component] at hc
  split at hc
  case isTrue => cases hc
  case isFalse =>
    split at hc
    case isTrue => cases hc
    case isFalse =>
      cases hc
      rw [stranger, List.length_replicate] at hlen
      omega

/-- **A path that stays in every directory** is one that leads inwards. -/
theorem forall_contained_iff : (∀ base, Contained base path) ↔ Inward path := by
  constructor
  · intro h
    have hrel : path.head? ≠ some 0x2f := by
      intro habs
      have hbelow := (h (stranger path)).1
      rw [lexicallyNormal_stranger, getFullPath, if_pos habs, lexicallyNormal, absolute_normal,
        decide_eq_true habs] at hbelow
      cases hbelow
    have hbelow := h (stranger path)
    rw [Contained, lexicallyNormal_getFullPath hrel, lexicallyNormal_stranger] at hbelow
    refine ⟨hrel, ?_⟩
    rw [lexicallyNormal, decide_eq_false hrel]
    exact inner_of_below (down_stranger_notMem path) hbelow
  · rintro ⟨hrel, hinner⟩ base
    rw [lexicallyNormal, decide_eq_false hrel] at hinner
    rw [Contained, lexicallyNormal_getFullPath hrel]
    exact below_of_inner hinner _

/-- **Downloads stay inside the output directory**, for every file that `from_bencode` accepts,
if and only if the paths that `info` gives all lead inwards. -/
theorem contained_iff (sha1 : List UInt8 → Digest) (x : List UInt8) (m : TorrentFile)
    (h : fromBencode sha1 x = .ok (some m)) :
    (∀ f ∈ m.files, ∀ base, Contained base f.path) ↔ ∃ d info F, parse x = .ok (.dict d) ∧
      d.lookup (ascii "info") = some (.dict info) ∧ InfoFields.ReadFrom F info ∧
      ∀ f ∈ F.files, Inward f.1 := by
  rw [exists_fields_iff h, forall_files]
  exact forall₂_congr fun f _ => forall_contained_iff

/-- The file `a` goes to the directory `d`. -/
theorem contained_iff_tiny : Contained (ascii "d") (ascii "a") := by
  have hok : fromBencode (fun _ => .ofBytes []) tinyBytes = .ok (some tiny) := by decide +kernel
  have hin : ∀ f ∈ tiny.fields.files, Inward f.1 := by
    intro f hf
    rw [List.mem_singleton.mp hf]
    exact ⟨by decide, by decide, by decide⟩
  exact (contained_iff _ _ _ hok).mpr ((exists_fields_iff hok _).mpr hin)
    { path := ascii "a", length := 1, offset := 0 } (by decide) (ascii "d")

/-- A torrent file with one file, `../x`. -/
def dotdotBytes : List UInt8 :=
  ascii "d8:announce1:u4:infod6:lengthi1e4:name4:../x12:piece lengthi1e" ++
    ascii "6:pieces20:00000000000000000000ee"

/-- Its metadata, with a digest of zeros. -/
def dotdot : TorrentFile :=
  { tiny with
    name := ascii "../x"
    files := [{ path := ascii "../x", length := 1, offset := 0 }] }

/-- **A file outside the directory.** In the directory `d` the file `../x` is `x`, next to `d`. -/
theorem not_contained_dotdot :
    fromBencode (fun _ => .ofBytes []) dotdotBytes = .ok (some dotdot) ∧
      ¬∀ f ∈ dotdot.files, ∀ base, Contained base f.path := by
  refine ⟨by decide +kernel, fun h => ?_⟩
  have hin := h { path := ascii "../x", length := 1, offset := 0 } (by decide) (ascii "d")
  obtain ⟨-, -, rest, -, hnames⟩ := hin
  have hfull : (lexicallyNormal (getFullPath (ascii "d") (ascii "../x"))).names = [ascii "x"] := by
    decide
  have hbase : (lexicallyNormal (ascii "d")).names = [ascii "d"] := by decide
  rw [hfull, hbase, List.singleton_append, List.cons.injEq] at hnames
  exact absurd hnames.1 (by decide)

end TorrentFile

end TransferEngine
