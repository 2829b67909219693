import VeStorage.ADrive.Checkpoint.Machine
import Mathlib.Data.List.Perm.Basic

namespace VeStorage.ADrive.Checkpoint
open Lib
open Tos.Transfer

section Ranges

variable {fileSize : Nat} {r r' : PartRange}

theorem ranges_number_inj (hr : r ∈ ranges fileSize) (hr' : r' ∈ ranges fileSize)
    (h : r.number = r'.number) : r = r' := partRangesFrom_number_inj hr hr' h

theorem ranges_slices {content : Bytes} (hc : content.length = fileSize) :
    (ranges fileSize).flatMap (·.slice content) = content := by
  unfold ranges
  rw [partRangesFrom_slices (by decide) hc (by omega)]
  exact List.drop_zero

end Ranges

-- The parts recorded under a session, put together in the order of their numbers.
theorem assembled_content {c : Bytes} {s : UploadCheckpoint} {stored : Nat → Option Bytes}
    (hnodup : s.numbers.Nodup)
    (hmem : ∀ n, n ∈ s.numbers ↔ n ∈ (ranges c.length).map PartRange.number)
    (hstored : ∀ r ∈ ranges c.length, stored r.number = some (r.slice c)) :
    assembled stored s.completedParts = c := by
  have hsorted : ((ranges c.length).map PartRange.number).Pairwise (· < ·) := by
    rw [ranges, partRangesFrom_numbers]
    exact List.pairwise_lt_range'
  have hperm : ((sortOn UploadPartCheckpoint.partNumber s.completedParts).map
      UploadPartCheckpoint.partNumber).Perm s.numbers := (List.mergeSort_perm _ _).map _
  have hle : ((sortOn UploadPartCheckpoint.partNumber s.completedParts).map
      UploadPartCheckpoint.partNumber).Pairwise (· ≤ ·) :=
    List.pairwise_map.mpr (sortOn_pairwise UploadPartCheckpoint.partNumber _)
  have hnumbers : (sortOn UploadPartCheckpoint.partNumber s.completedParts).map
      UploadPartCheckpoint.partNumber = (ranges c.length).map PartRange.number := by
    have hall := hperm.trans ((List.perm_ext_iff_of_nodup hnodup
      (hsorted.imp fun h => Nat.ne_of_lt h)).mpr hmem)
    refine hall.eq_of_pairwise ?_ hle (hsorted.imp Nat.le_of_lt)
    intro a b _ _ hab hba
    omega
  calc assembled stored s.completedParts
      = ((sortOn UploadPartCheckpoint.partNumber s.completedParts).map
          UploadPartCheckpoint.partNumber).flatMap fun n => (stored n).getD [] := by
        rw [List.flatMap_map]; rfl
    _ = (ranges c.length).flatMap fun r => (stored r.number).getD [] := by
        rw [hnumbers, List.flatMap_map]
    _ = (ranges c.length).flatMap (·.slice c) :=
        List.flatMap_congr fun r hr => by rw [hstored r hr, Option.getD_some]
    _ = c := ranges_slices rfl

def Fits (w : World) (i : Item) (s : UploadCheckpoint) : Prop :=
  ∀ c, w.tree i.src = some c → c.length = s.fileSize → ∀ stored, w.uploads s.uploadId = some stored →
    ∀ r ∈ ranges s.fileSize, r.number ∈ s.numbers → stored r.number = some (r.slice c)

structure SessionInv (t : Task) (w : World) (i : Item) (s : UploadCheckpoint) : Prop where
  planned : t.item i.src = some i
  known : s.uploadId < w.nextId
  nodup : s.numbers.Nodup
  numbers : ∀ n ∈ s.numbers, ∃ r ∈ ranges s.fileSize, r.number = n

def PartInv (S : Service) (k : RangePart) (b : Bytes) : Prop :=
  ∃ c r, S.etag c = k.etag ∧ c.length = k.fileSize ∧ r ∈ ranges k.fileSize ∧ r.number = k.number ∧
    b <+: r.slice c

structure StoreInv (S : Service) (t : Task) (w : World) : Prop where
  sessions : ∀ i s, w.sessions i = some (some s) → SessionInv t w i s
  alone : ∀ i i' s s', w.sessions i = some (some s) → w.sessions i' = some (some s') →
    s.uploadId = s'.uploadId → i = i'
  fits : ∀ i s, w.sessions i = some (some s) → Fits w i s
  parts : ∀ k b, w.parts k = some b → PartInv S k b

section Frames

variable (w : World) (p : Place) (i : Item) (k : RangePart) (id : Nat) (v : Option Bytes)
  (s : Option (Option UploadCheckpoint)) (u : Option (Nat → Option Bytes)) (ps : List Place)

@[simp] theorem setFile_sessions : (w.setFile p v).sessions = w.sessions := rfl
@[simp] theorem setFile_uploads : (w.setFile p v).uploads = w.uploads := rfl
@[simp] theorem setFile_nextId : (w.setFile p v).nextId = w.nextId := rfl
@[simp] theorem setFile_parts : (w.setFile p v).parts = w.parts := rfl
@[simp] theorem setSession_tree : (w.setSession i s).tree = w.tree := rfl
@[simp] theorem setSession_uploads : (w.setSession i s).uploads = w.uploads := rfl
@[simp] theorem setSession_nextId : (w.setSession i s).nextId = w.nextId := rfl
@[simp] theorem setSession_parts : (w.setSession i s).parts = w.parts := rfl
@[simp] theorem putUpload_tree : (w.putUpload id u).tree = w.tree := rfl
@[simp] theorem putUpload_sessions : (w.putUpload id u).sessions = w.sessions := rfl
@[simp] theorem putUpload_nextId : (w.putUpload id u).nextId = w.nextId := rfl
@[simp] theorem putUpload_parts : (w.putUpload id u).parts = w.parts := rfl
@[simp] theorem setPart_tree : (w.setPart k v).tree = w.tree := rfl
@[simp] theorem setPart_sessions : (w.setPart k v).sessions = w.sessions := rfl
@[simp] theorem setPart_uploads : (w.setPart k v).uploads = w.uploads := rfl
@[simp] theorem setPart_nextId : (w.setPart k v).nextId = w.nextId := rfl
@[simp] theorem initiate_tree : w.initiate.tree = w.tree := rfl
@[simp] theorem initiate_sessions : w.initiate.sessions = w.sessions := rfl
@[simp] theorem initiate_nextId : w.initiate.nextId = w.nextId + 1 := rfl
@[simp] theorem initiate_parts : w.initiate.parts = w.parts := rfl

@[simp] theorem setFile_self : (w.setFile p v).tree p = v := by simp [World.setFile]

theorem setFile_ne {q : Place} (h : q ≠ p) : (w.setFile p v).tree q = w.tree q := by
  simp [World.setFile, h]

@[simp] theorem setSession_self : (w.setSession i s).sessions i = s := by simp [World.setSession]

theorem setSession_ne {i' : Item} (h : i' ≠ i) : (w.setSession i s).sessions i' = w.sessions i' := by
  simp [World.setSession, h]

@[simp] theorem putUpload_self : (w.putUpload id u).uploads id = u := by simp [World.putUpload]

theorem putUpload_ne {id' : Nat} (h : id' ≠ id) : (w.putUpload id u).uploads id' = w.uploads id' := by
  simp [World.putUpload, h]

@[simp] theorem setPart_self : (w.setPart k v).parts k = v := by simp [World.setPart]

theorem setPart_ne {k' : RangePart} (h : k' ≠ k) : (w.setPart k v).parts k' = w.parts k' := by
  simp [World.setPart, h]

theorem initiate_uploads {id' : Nat} (h : id' < w.nextId) : w.initiate.uploads id' = w.uploads id' :=
  putUpload_ne w w.nextId _ (Nat.ne_of_lt h)

end Frames

theorem storePart_self (stored : Nat → Option Bytes) (r : PartRange) (b : Bytes) :
    storePart stored r b r.number = some b := by simp [storePart]

theorem storePart_ne (stored : Nat → Option Bytes) {r : PartRange} (b : Bytes) {n : Nat}
    (h : n ≠ r.number) : storePart stored r b n = stored n := by simp [storePart, h]

@[simp] theorem pushPart_numbers (s : UploadCheckpoint) (p : UploadPartCheckpoint) :
    (s.pushPart p).numbers = s.numbers ++ [p.partNumber] := by
  simp [UploadCheckpoint.numbers, UploadCheckpoint.pushPart]

@[simp] theorem pushPart_uploadId (s : UploadCheckpoint) (p : UploadPartCheckpoint) :
    (s.pushPart p).uploadId = s.uploadId := rfl

@[simp] theorem pushPart_fileSize (s : UploadCheckpoint) (p : UploadPartCheckpoint) :
    (s.pushPart p).fileSize = s.fileSize := rfl

section Store

variable {S : Service} {t : Task} {w : World} {i : Item} {s : UploadCheckpoint} {c : Bytes}
  {r : PartRange} {stored : Nat → Option Bytes}

theorem SessionInv.mono {w' : World} (h : SessionInv t w i s) (hid : w.nextId ≤ w'.nextId) :
    SessionInv t w' i s := ⟨h.planned, Nat.lt_of_lt_of_le h.known hid, h.nodup, h.numbers⟩

-- A write at a place where no walk and no listing of the task finds a source.
theorem StoreInv.setFile (h : StoreInv S t w) {p : Place} (hp : t.item p = none) (v : Option Bytes) :
    StoreInv S t (w.setFile p v) where
  sessions := fun i s hs => (h.sessions i s hs).mono (Nat.le_refl _)
  alone := h.alone
  fits := by
    intro i s hs c hc
    have hne : i.src ≠ p := by
      rintro rfl
      have := (h.sessions i s hs).planned
      rw [hp] at this
      cases this
    rw [setFile_ne _ _ _ hne] at hc
    exact h.fits i s hs c hc
  parts := h.parts

theorem StoreInv.setPart (h : StoreInv S t w) {k : RangePart} {v : Option Bytes}
    (hv : ∀ b, v = some b → PartInv S k b) : StoreInv S t (w.setPart k v) where
  sessions := fun i s hs => (h.sessions i s hs).mono (Nat.le_refl _)
  alone := h.alone
  fits := h.fits
  parts := by
    intro k' b hb
    by_cases hk : k' = k
    · subst hk
      rw [setPart_self] at hb
      exact hv b hb
    · rw [setPart_ne _ _ _ hk] at hb
      exact h.parts k' b hb

theorem StoreInv.initiate (h : StoreInv S t w) : StoreInv S t w.initiate where
  sessions := fun i s hs => (h.sessions i s hs).mono (Nat.le_succ _)
  alone := h.alone
  fits := by
    intro i s hs c hc hlen stored hst
    rw [initiate_uploads _ (h.sessions i s hs).known] at hst
    exact h.fits i s hs c hc hlen stored hst
  parts := h.parts

theorem StoreInv.dropSession (h : StoreInv S t w) {v : Option (Option UploadCheckpoint)}
    (hv : v = none ∨ v = some none) : StoreInv S t (w.setSession i v) := by
  have hold : ∀ i' s, (w.setSession i v).sessions i' = some (some s) →
      w.sessions i' = some (some s) := by
    intro i' s hs
    by_cases hi : i' = i
    · subst hi
      rw [setSession_self] at hs
      rcases hv with rfl | rfl <;> simp at hs
    · rwa [setSession_ne _ _ _ hi] at hs
  exact ⟨fun i' s hs => (h.sessions i' s (hold i' s hs)).mono (Nat.le_refl _),
    fun a b s s' hs hs' he => h.alone a b s s' (hold a s hs) (hold b s' hs') he,
    fun i' s hs => h.fits i' s (hold i' s hs), h.parts⟩

theorem StoreInv.create (h : StoreInv S t w) (hi : t.item i.src = some i) (n : Nat) :
    StoreInv S t (w.initiate.setSession i (some (some ⟨n, w.nextId, []⟩))) := by
  have hinit := h.initiate
  have hcase : ∀ i' s, (w.initiate.setSession i (some (some ⟨n, w.nextId, []⟩))).sessions i' =
      some (some s) → (i' = i ∧ s = ⟨n, w.nextId, []⟩) ∨ (i' ≠ i ∧ w.sessions i' = some (some s)) := by
    intro i' s hs
    by_cases he : i' = i
    · subst he
      rw [setSession_self] at hs
      simp only [Option.some.injEq] at hs
      exact .inl ⟨rfl, hs.symm⟩
    · rw [setSession_ne _ _ _ he] at hs
      exact .inr ⟨he, hs⟩
  refine ⟨fun i' s hs => ?_, fun a b s s' hs hs' he => ?_, fun i' s hs => ?_, h.parts⟩
  · rcases hcase i' s hs with ⟨rfl, rfl⟩ | ⟨-, hs⟩
    · exact ⟨hi, Nat.lt_succ_self _, by simp [UploadCheckpoint.numbers],
        by simp [UploadCheckpoint.numbers]⟩
    · exact (hinit.sessions i' s hs).mono (Nat.le_refl _)
  · rcases hcase a s hs with ⟨rfl, rfl⟩ | ⟨-, hs⟩
    · rcases hcase b s' hs' with ⟨rfl, rfl⟩ | ⟨-, hs'⟩
      · rfl
      · have hlt := (h.sessions b s' hs').known
        exact absurd he.symm (Nat.ne_of_lt hlt)
    · rcases hcase b s' hs' with ⟨rfl, rfl⟩ | ⟨-, hs'⟩
      · have hlt := (h.sessions a s ‹_›).known
        exact absurd he (Nat.ne_of_lt hlt)
      · exact h.alone a b s s' hs hs' he
  · rcases hcase i' s hs with ⟨rfl, rfl⟩ | ⟨-, hs⟩
    · intro c _ _ stored _ r _ hr
      simp [UploadCheckpoint.numbers] at hr
    · exact hinit.fits i' s hs

theorem StoreInv.retire (h : StoreInv S t w) (id : Nat) : StoreInv S t (w.putUpload id none) where
  sessions := fun i s hs => (h.sessions i s hs).mono (Nat.le_refl _)
  alone := h.alone
  fits := by
    intro i s hs c hc hlen stored hst
    by_cases he : s.uploadId = id
    · rw [he, putUpload_self] at hst
      cases hst
    · rw [putUpload_ne _ _ _ he] at hst
      exact h.fits i s hs c hc hlen stored hst
  parts := h.parts

theorem StoreInv.store (h : StoreInv S t w) (hs : w.sessions i = some (some s))
    (hl : w.uploads s.uploadId = some stored) (hr : r.number ∉ s.numbers) (b : Bytes) :
    StoreInv S t (w.putUpload s.uploadId (some (storePart stored r b))) where
  sessions := fun i' s' hs' => (h.sessions i' s' hs').mono (Nat.le_refl _)
  alone := h.alone
  fits := by
    intro i' s' hs' c hc hlen stored' hst r' hr' hn
    by_cases he : s'.uploadId = s.uploadId
    · obtain rfl := h.alone i' i s' s hs' hs he
      obtain rfl : s' = s := by simpa [hs] using hs'.symm
      rw [putUpload_self, Option.some.injEq] at hst
      subst hst
      rw [storePart_ne _ _ fun hne => hr (hne ▸ hn)]
      exact h.fits i' s' hs' c hc hlen stored hl r' hr' hn
    · rw [putUpload_ne _ _ _ he] at hst
      exact h.fits i' s' hs' c hc hlen stored' hst r' hr' hn
  parts := h.parts

theorem StoreInv.record (h : StoreInv S t w) (hs : w.sessions i = some (some s))
    (hc : w.tree i.src = some c) (hlen : s.fileSize = c.length)
    (hl : w.uploads s.uploadId = some stored) (hr : r ∈ ranges c.length)
    (hnew : r.number ∉ s.numbers) (etag : Text) :
    StoreInv S t ((w.putUpload s.uploadId (some (storePart stored r (r.slice c)))).setSession i
      (some (some (s.pushPart ⟨r.number, etag⟩)))) := by
  have hstore := h.store hs hl hnew (r.slice c)
  have hcase : ∀ i' s', ((w.putUpload s.uploadId (some (storePart stored r
      (r.slice c)))).setSession i (some (some (s.pushPart ⟨r.number, etag⟩)))).sessions i' =
        some (some s') → (i' = i ∧ s' = s.pushPart ⟨r.number, etag⟩) ∨
          w.sessions i' = some (some s') := by
    intro i' s' hs'
    by_cases he : i' = i
    · subst he
      rw [setSession_self] at hs'
      simp only [Option.some.injEq] at hs'
      exact .inl ⟨rfl, hs'.symm⟩
    · rw [setSession_ne _ _ _ he] at hs'
      exact .inr hs'
  have hown := h.sessions i s hs
  refine ⟨fun i' s' hs' => ?_, fun a b x y hx hy he => ?_, fun i' s' hs' => ?_, h.parts⟩
  · rcases hcase i' s' hs' with ⟨rfl, rfl⟩ | hs'
    · refine ⟨hown.planned, hown.known, ?_, ?_⟩
      · rw [pushPart_numbers, List.nodup_append]
        refine ⟨hown.nodup, by simp, fun a ha b hb he => hnew ?_⟩
        have hnumber : a = r.number := he.trans (List.mem_singleton.mp hb)
        exact hnumber ▸ ha
      · rw [pushPart_numbers]
        intro n hn
        rcases List.mem_append.mp hn with hn | hn
        · exact hown.numbers n hn
        · exact ⟨r, by rw [UploadCheckpoint.pushPart, hlen]; exact hr, (List.mem_singleton.mp hn).symm⟩
    · exact (h.sessions i' s' hs').mono (Nat.le_refl _)
  · have hid : ∀ a x, (a = i ∧ x = s.pushPart ⟨r.number, etag⟩) ∨ w.sessions a = some (some x) →
        ∃ x', w.sessions a = some (some x') ∧ x'.uploadId = x.uploadId := by
      rintro a x (⟨rfl, rfl⟩ | hx)
      · exact ⟨s, hs, rfl⟩
      · exact ⟨x, hx, rfl⟩
    obtain ⟨x', hx', hxi⟩ := hid a x (hcase a x hx)
    obtain ⟨y', hy', hyi⟩ := hid b y (hcase b y hy)
    exact h.alone a b x' y' hx' hy' (by rw [hxi, hyi, he])
  · rcases hcase i' s' hs' with ⟨rfl, rfl⟩ | hs'
    · intro c' hc' hlen' stored' hst r' hr' hn
      obtain rfl : c = c' := by simpa [hc] using hc'
      rw [setSession_uploads, pushPart_uploadId, putUpload_self, Option.some.injEq] at hst
      subst hst
      have hr'' : r' ∈ ranges s.fileSize := hr'
      by_cases hnum : r'.number = r.number
      · obtain rfl := ranges_number_inj hr'' (hlen ▸ hr) hnum
        exact storePart_self ..
      · rw [storePart_ne _ _ hnum]
        rw [pushPart_numbers, List.mem_append, List.mem_singleton] at hn
        exact h.fits i' s hs c hc hlen.symm stored hl r' hr'' (hn.resolve_right hnum)
    · exact hstore.fits i' s' hs'

end Store

end VeStorage.ADrive.Checkpoint
