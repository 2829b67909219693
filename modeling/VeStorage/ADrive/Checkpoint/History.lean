import VeStorage.ADrive.Checkpoint.Converge

namespace VeStorage.ADrive.Checkpoint
open Lib

structure Harmless (t : Task) (l : Left) (p : Place) (v : Option Bytes) : Prop where
  recorded : ∀ record, l.completed = some record → ∀ q i, t.item q = some i → i.key ∈ record →
    Agrees (l.world.setFile p v).tree i
  uploaded : ∀ i s, l.world.sessions i = some (some s) → Fits (l.world.setFile p v) i s

structure Spares (t : Task) (tree : Tree) (removed : List Place) : Prop where
  sources : ∀ p ∈ removed, t.item p = none
  destinations : ∀ q i, t.item q = some i → tree q ≠ none → i.dst ∉ removed

def Action.Allowed (t : Task) (l : Left) : Action → Prop
  | .edit p v => Harmless t l p v
  | .stopped _ _ => Separated t l.world.tree
  | .returned _ removed => Separated t l.world.tree ∧ Spares t l.world.tree removed

def GoodKey (t : Task) (w : World) (k : Text) : Prop :=
  ∀ p i, t.item p = some i → i.key = k → Agrees w.tree i

structure SourceInv (S : Service) (t : Task) (tree : Tree) (d : Discovery) (handed : List Job) : Prop where
  start : d.start = tree
  seen : handed.map Job.src = d.seen
  nodup : d.seen.Nodup
  found : ∀ job ∈ handed, ∃ c, Found S t tree job c
  closed : d.closed = true → ∀ p i, t.item p = some i → tree p ≠ none → p ∈ d.seen

structure LeftInv (S : Service) (t : Task) (l : Left) : Prop where
  store : StoreInv S t l.world
  recorded : ∀ record, l.completed = some record → ∀ k ∈ record, GoodKey t l.world k

section Runs

variable {S : Service} {t : Task} {cfg : TransferRuntimeConfig} {tree : Tree} {w w' : World}
  {d d' : Discovery} {jobs handed : List Job}

theorem Found.congr {tree' : Tree} {j : Job} {c : Bytes} (h : Found S t tree j c)
    (hsrc : tree' j.src = tree j.src) : Found S t tree' j c :=
  ⟨h.item, hsrc.trans h.content, h.etag, h.size, h.crc64⟩

theorem SourceInv.keys (h : SourceInv S t tree d handed) : (handed.map Job.key).Nodup := by
  have hsrc : (handed.map Job.src).Nodup := by
    rw [h.seen]
    exact h.nodup
  refine hsrc.of_map.map_on ?_
  intro a ha b hb hk
  obtain ⟨c, ha'⟩ := h.found a ha
  obtain ⟨c', hb'⟩ := h.found b hb
  have hitem := item_key_inj ha'.item hb'.item hk
  exact List.inj_on_of_nodup_map hsrc ha hb (congrArg Item.src hitem)

theorem discover_source (hw : WorldInv S t tree w) (h : SourceInv S t tree d handed)
    (he : Discover S t cfg w d jobs d') : SourceInv S t tree d' (handed ++ jobs) := by
  have hfound : ∀ {jobs : List Job}, (∀ job ∈ jobs, ∃ c, Found S t w.tree job c) →
      ∀ job ∈ handed ++ jobs, ∃ c, Found S t tree job c := by
    intro jobs hj job hm
    rcases List.mem_append.mp hm with hm | hm
    · exact h.found job hm
    · obtain ⟨c, hc⟩ := hj job hm
      exact ⟨c, hc.congr (hw.sources _ _ hc.item).symm⟩
  have hseen := h.seen
  cases he with
  | manifest start jobs hm hj hnodup hall =>
    refine ⟨h.start, by simpa using hseen, hnodup, hfound hj, fun _ p i hi hp => ?_⟩
    exact hall p i hi (by rwa [hw.sources p i hi])
  | page start seen jobs hm hj hnodup =>
    exact ⟨h.start, by rw [List.map_append, hseen], hnodup, hfound hj, nofun⟩
  | close start seen hm hall =>
    refine ⟨h.start, by simpa using hseen, h.nodup, by simpa using h.found, fun _ p i hi hp => ?_⟩
    obtain rfl : start = tree := h.start
    exact hall p i hi hp (by rwa [hw.sources p i hi])

theorem rules (hinj : Function.Injective S.etag) (hsep : Separated t tree) :
    Recorded.Rules (Discover S t cfg) (Transfer S cfg) .start Stage.ended Job.key
      (WorldInv S t tree) (SourceInv S t tree) (fun j => ∃ c, Found S t tree j c) (GoodKey t)
      (fun w j u => ∀ c, Found S t tree j c → FineAt w j c u) where
  distinct := fun _ _ h => h.keys
  handed := fun _ _ h => h.found
  discovered := fun _ _ _ _ _ hw h he => discover_source hw h he
  started := fun _ _ _ _ => trivial
  finished := by
    rintro w j u hw ⟨c, hj⟩ hu hok
    cases u <;> try cases hok
    intro p i hi hk c' hc'
    obtain rfl := item_key_inj hi hj.item hk
    obtain rfl : c' = c := Option.some.inj (hc'.symm.trans (hw.content hj))
    exact hu c' hj rfl
  world_step := by
    rintro w w' j u u' hw ⟨c, hj⟩ hu h
    exact transfer_world hsep hw hj (hu c hj) h
  fine_step := by
    rintro w w' j u u' hw - hu h c hj
    exact transfer_fine hinj hw hj (hu c hj) h
  good_other := by
    rintro w w' j u u' k hw ⟨c, hj⟩ hu h hne hgood p i hi hk c' hc'
    have hw' := transfer_world hsep hw hj (hu c hj) h
    have hsrc := item_src hi
    rw [hsrc, hw'.sources p i hi] at hc'
    have hdst : i.dst ≠ j.dst := by
      intro he
      have hpj := hsep.distinct p j.src i j.item hi hj.item (by simp [hc']) (by simp [hj.content]) he
      subst hpj
      obtain rfl : i = j.item := Option.some.inj (hi.symm.trans hj.item)
      exact hne hk.symm
    rw [(transfer_frame h).tree _ hdst]
    exact hgood p i hi hk c' (by rw [hsrc, hw.sources p i hi, hc'])
  fine_other := by
    rintro w w' j u u' other v hw ⟨c, hj⟩ hu h - hne hv c' ho
    have hitem : other.item ≠ j.item := fun he => hne (congrArg Item.key he)
    have hdst : other.dst ≠ j.dst := by
      intro he
      have hsrc := hsep.distinct _ _ _ _ ho.item hj.item (by simp [ho.content]) (by simp [hj.content]) he
      refine hitem (Option.some.inj ?_)
      rw [← ho.item, hsrc, hj.item]
    exact fineAt_frame (transfer_frame h) hdst hitem (hv c' ho)

theorem begin_inv (S : Service) {record : List Text} (hstore : StoreInv S t w)
    (hgood : ∀ k ∈ record, GoodKey t w k) :
    Recorded.Inv Job.key (WorldInv S t w.tree) (SourceInv S t w.tree) (GoodKey t)
      (fun w' j u => ∀ c, Found S t w.tree j c → FineAt w' j c u) (Exec.begin w record) :=
  Recorded.Inv.init ⟨fun _ _ _ => rfl, hstore⟩ ⟨rfl, rfl, List.nodup_nil, by simp, nofun⟩ hgood

theorem converged_of_all (hw : WorldInv S t tree w) (h : SourceInv S t tree d handed)
    (hclosed : d.closed = true) (hgood : ∀ job ∈ handed, GoodKey t w job.key) :
    Converged t w.tree := by
  intro p i hi c hc
  have hsrc := item_src hi
  have hp : tree p ≠ none := by
    rw [hsrc, hw.sources p i hi] at hc
    simp [hc]
  have hseen := h.closed hclosed p i hi hp
  rw [← h.seen] at hseen
  obtain ⟨job, hjob, rfl⟩ := List.mem_map.mp hseen
  obtain ⟨c', hj⟩ := h.found job hjob
  obtain rfl : job.item = i := Option.some.inj (hj.item.symm.trans hi)
  exact hgood job hjob _ _ hj.item rfl c hc

end Runs

section Histories

variable {S : Service} {t : Task} {cfg : TransferRuntimeConfig} {w : World} {l l' : Left} {a : Action}

theorem run_left (hinj : Function.Injective S.etag) {record : List Text} {x : Exec}
    (hl : LeftInv S t ⟨w, some record⟩) (hsep : Separated t w.tree)
    (h : Run S t cfg (Exec.begin w record) x) :
    LeftInv S t ⟨x.world, some x.record⟩ ∧ (∀ p i, t.item p = some i → x.world.tree p = w.tree p) ∧
      (Exec.Successful x → Converged t x.world.tree) := by
  have hinv := Recorded.run_inv (rules hinj hsep) h (begin_inv S hl.store (hl.recorded record rfl))
  refine ⟨⟨hinv.world.store, ?_⟩, hinv.world.sources, ?_⟩
  · rintro _ ⟨⟩
    exact hinv.recorded
  · rintro ⟨hdone, h0⟩
    exact converged_of_all hinv.world hinv.source hdone.1 (hinv.all_good hdone h0)

theorem removeAll_agrees {w' : World} {removed : List Place} (hsame : ∀ p i, t.item p = some i →
    w'.tree p = w.tree p) (hsp : Spares t w.tree removed) {p : Place} {i : Item}
    (hi : t.item p = some i) (h : Agrees w'.tree i) : Agrees (w'.removeAll removed).tree i := by
  intro c hc
  have hsrc := item_src hi
  have hp : i.src ∉ removed := by
    intro hm
    have := hsp.sources _ hm
    rw [hsrc, hi] at this
    cases this
  simp only [World.removeAll, if_neg hp] at hc ⊢
  have hpresent : w.tree p ≠ none := by
    rw [← hsame p i hi, ← hsrc, hc]
    exact Option.some_ne_none c
  rw [if_neg (hsp.destinations p i hi hpresent)]
  exact h c hc

theorem LeftInv.removeAll {w' : World} {record : List Text} {removed : List Place}
    (h : LeftInv S t ⟨w', some record⟩) (hsame : ∀ p i, t.item p = some i → w'.tree p = w.tree p)
    (hsp : Spares t w.tree removed) : LeftInv S t ⟨w'.removeAll removed, some record⟩ where
  store :=
    { sessions := fun i s hs => (h.store.sessions i s hs).mono (Nat.le_refl _)
      alone := h.store.alone
      fits := by
        intro i s hs c hc
        have hp : i.src ∉ removed := by
          intro hm
          have hplanned := (h.store.sessions i s hs).planned
          rw [hsp.sources _ hm] at hplanned
          cases hplanned
        simp only [World.removeAll, if_neg hp] at hc
        exact h.store.fits i s hs c hc
      parts := h.store.parts }
  recorded := by
    rintro _ ⟨⟩ k hk p i hi hki
    exact removeAll_agrees hsame hsp hi (h.recorded record rfl k hk p i hi hki)

theorem step_left (hinj : Function.Injective S.etag) (hl : LeftInv S t l) (ha : a.Allowed t l)
    (h : Step S t cfg l a l') : LeftInv S t l' := by
  cases h with
  | edit p v =>
    refine ⟨⟨fun i s hs => (hl.store.sessions i s hs).mono (Nat.le_refl _), hl.store.alone,
      ha.uploaded, hl.store.parts⟩, ?_⟩
    intro record hr k hk q i hi hki
    exact ha.recorded record hr q i hi (hki ▸ hk)
  | stopped w record x torn h =>
    have hrun := (run_left hinj hl ha h).1
    refine ⟨hrun.store, ?_⟩
    intro record' hr
    cases torn with
    | false => exact hrun.recorded record' hr
    | true => cases hr
  | returned w record x removed h hx =>
    have hrun := run_left hinj hl ha.1 h
    exact hrun.1.removeAll hrun.2.1 ha.2

-- An edit away from what the record and the saved sessions speak of.
theorem LeftInv.harmless (hl : LeftInv S t l) {p : Place} (v : Option Bytes)
    (hrecorded : ∀ record, l.completed = some record → ∀ q i, t.item q = some i → i.key ∈ record →
      i.src ≠ p ∧ i.dst ≠ p)
    (hsessions : ∀ i s, l.world.sessions i = some (some s) → i.src ≠ p) : Harmless t l p v where
  recorded record hr q i hi hk c hc := by
    obtain ⟨hsrc, hdst⟩ := hrecorded record hr q i hi hk
    rw [setFile_ne _ _ _ hsrc] at hc
    rw [setFile_ne _ _ _ hdst]
    exact hl.recorded record hr i.key hk q i hi rfl c hc
  uploaded i s hs c hc := by
    rw [setFile_ne _ _ _ (hsessions i s hs)] at hc
    exact hl.store.fits i s hs c hc

theorem fresh_left (S : Service) (t : Task) (tree : Tree) : LeftInv S t (Left.fresh tree) where
  store := ⟨nofun, nofun, nofun, nofun⟩
  recorded := by
    rintro _ ⟨⟩
    simp

theorem history_left (hinj : Function.Injective S.etag) {tree : Tree} {hist : List (Left × Action)}
    (h : History S t cfg (Left.fresh tree) hist l) (hall : ∀ e ∈ hist, e.2.Allowed t e.1) :
    LeftInv S t l := by
  induction h with
  | nil => exact fresh_left S t tree
  | snoc hist l a l' _ hs ih =>
    have hbefore := ih fun e he => hall e (List.mem_append_left _ he)
    exact step_left hinj hbefore (hall (l, a) (by simp)) hs

-- Every run that returns, wherever it stands in the history.
def AllConverge (t : Task) (hist : List (Left × Action)) : Prop :=
  ∀ e ∈ hist, ∀ x removed, e.2 = .returned x removed → Converged t (x.world.removeAll removed).tree

theorem checkpointed_runs_converge (hinj : Function.Injective S.etag) {tree : Tree}
    {hist : List (Left × Action)} {l : Left} (h : History S t cfg (Left.fresh tree) hist l)
    (hall : ∀ e ∈ hist, e.2.Allowed t e.1) : AllConverge t hist := by
  induction h with
  | nil => simp [AllConverge]
  | snoc hist l a l' hh hs ih =>
    have hbefore : ∀ e ∈ hist, e.2.Allowed t e.1 := fun e he => hall e (List.mem_append_left _ he)
    intro e he x removed hx
    rcases List.mem_append.mp he with he | he
    · exact ih hbefore e he x removed hx
    · obtain rfl := List.mem_singleton.mp he
      have ha := hall (l, a) (by simp)
      have hl := history_left hinj hh hbefore
      cases hs with
      | edit => cases hx
      | stopped => cases hx
      | returned w record x' removed' hrun hok =>
        cases hx
        obtain ⟨-, hsame, hconv⟩ := run_left hinj hl ha.1 hrun
        intro p i hi
        exact removeAll_agrees hsame ha.2 hi (hconv hok p i hi)

end Histories

section Samples

open Tos (RelPath)
open Tos.Transfer (PartRange)

def charEtag (b : Bytes) : Text := b.map fun x => Char.ofNat x.toNat

def sampleService : Service := ⟨charEtag, fun _ => 0⟩

-- Files of two bytes and more are uploaded in parts.
def sampleConfig : TransferRuntimeConfig := ⟨2, 4, false⟩

def sampleArgs : CpArgs := ⟨"d".toList, "adrive://i/s/b".toList, false, none, none⟩

def sampleTarget : SpaceTarget := ⟨⟨"i".toList, "s".toList, "b".toList⟩, by decide⟩

def sampleTask : Task := ⟨[], .upload "d".toList sampleTarget, none, none, none⟩

inductive SampleName where
  | x | y | z
deriving DecidableEq

namespace SampleName

def rel : SampleName → RelPath
  | x => ⟨["x".toList], by decide⟩
  | y => ⟨["y".toList], by decide⟩
  | z => ⟨["z".toList], by decide⟩

def source (name : SampleName) : Place := .disk ("d".toList :: name.rel.names)

def item (name : SampleName) : Item := sampleTask.uploadItem "d".toList sampleTarget name.rel

theorem source_injective : Function.Injective source := by
  intro name name' h
  cases name <;> cases name' <;> first | rfl | exact absurd h (by decide)

theorem item_source (name : SampleName) : sampleTask.item name.source = some name.item := by
  cases name <;> decide

theorem item_dst {name name' : SampleName} (h : name.item.dst = name'.item.dst) : name = name' := by
  cases name <;> cases name' <;> first | rfl | exact absurd h (by decide)

theorem item_key {name name' : SampleName} (h : name.item.key = name'.item.key) : name = name' := by
  have hitem := item_key_inj name.item_source name'.item_source h
  exact item_dst (congrArg Item.dst hitem)

end SampleName

open SampleName (x y z)

abbrev SampleFiles := List (SampleName × Bytes)

def sampleTree (files : SampleFiles) : Tree := fun p =>
  (files.find? fun file => file.1.source = p).map Prod.snd

def sampleJob (file : SampleName × Bytes) : Job := ⟨file.1.item, charEtag file.2, file.2.length, 0⟩

theorem charEtag_injective : Function.Injective charEtag := by
  refine List.map_injective_iff.mpr fun x y h => ?_
  have hx : ∀ x : UInt8, (Char.ofNat x.toNat).toNat = x.toNat := by
    intro x
    have hvalid : x.toNat.isValidChar := .inl (Nat.lt_trans x.toNat_lt (by decide))
    rw [Char.ofNat, dif_pos hvalid]
    rfl
  have hnat := congrArg Char.toNat h
  rw [hx, hx] at hnat
  exact UInt8.toNat_inj.mp hnat

theorem sampleArgs_task : sampleArgs.task [] = .ok sampleTask := rfl

theorem sampleTask_disk {p : Place} {i : Item} (h : sampleTask.item p = some i) :
    ∃ names, p = .disk names := by
  cases p with
  | disk names => exact ⟨names, rfl⟩
  | remote inst space path => cases h

-- These files and nothing else that the walk finds.
structure OnlyFiles (w : World) (files : SampleFiles) : Prop where
  present : ∀ file ∈ files, w.tree file.1.source = some file.2
  only : ∀ names, w.tree (.disk names) ≠ none → ∃ file ∈ files, .disk names = file.1.source
  nodup : (files.map Prod.fst).Nodup

namespace OnlyFiles

variable {w w' : World} {files : SampleFiles} {record : List Text}

theorem of_disk (h : OnlyFiles w files) (hsame : ∀ names, w'.tree (.disk names) = w.tree (.disk names)) :
    OnlyFiles w' files where
  present file hfile := (hsame _).trans (h.present file hfile)
  only names hn := h.only names (hsame names ▸ hn)
  nodup := h.nodup

theorem named (h : OnlyFiles w files) {p : Place} {i : Item} (hi : sampleTask.item p = some i)
    (hp : w.tree p ≠ none) : ∃ name ∈ files.map Prod.fst, p = name.source ∧ i = name.item := by
  obtain ⟨names, rfl⟩ := sampleTask_disk hi
  obtain ⟨file, hfile, hsource⟩ := h.only names hp
  refine ⟨file.1, List.mem_map_of_mem hfile, hsource, ?_⟩
  rw [hsource, file.1.item_source] at hi
  exact (Option.some.inj hi).symm

theorem sources_eq (files : SampleFiles) :
    (files.map sampleJob).map Job.src = (files.map Prod.fst).map SampleName.source := by
  rw [List.map_map, List.map_map]
  refine List.map_congr_left fun file _ => ?_
  obtain ⟨name, content⟩ := file
  cases name <;> rfl

theorem separated (h : OnlyFiles w files) : Separated sampleTask w.tree where
  distinct p q i j hi hj hp hq he := by
    obtain ⟨name, -, rfl, rfl⟩ := h.named hi hp
    obtain ⟨name', -, rfl, rfl⟩ := h.named hj hq
    rw [SampleName.item_dst he]
  outside p i hi hp := by
    obtain ⟨name, -, rfl, rfl⟩ := h.named hi hp
    cases name <;> rfl

theorem discover (h : OnlyFiles w files) :
    Discover sampleService sampleTask sampleConfig w ⟨w.tree, [], false⟩ (files.map sampleJob)
      ⟨w.tree, (files.map sampleJob).map Job.src, true⟩ := by
  refine .manifest w.tree _ rfl ?_ ?_ ?_
  · intro job hjob
    obtain ⟨file, hfile, rfl⟩ := List.mem_map.mp hjob
    have hsource : (sampleJob file).src = file.1.source := item_src file.1.item_source
    refine ⟨file.2, ?_, ?_, rfl, rfl, .inl rfl⟩
    · rw [hsource]
      exact file.1.item_source
    · rw [hsource]
      exact h.present file hfile
  · rw [sources_eq]
    exact h.nodup.map SampleName.source_injective
  · intro p i hi hp
    obtain ⟨name, hname, rfl, -⟩ := h.named hi hp
    rw [sources_eq]
    exact List.mem_map_of_mem hname

theorem discovers (h : OnlyFiles w files) (record : List Text) :
    Run sampleService sampleTask sampleConfig (Exec.begin w record)
      ⟨w, ⟨w.tree, (files.map sampleJob).map Job.src, true⟩, files.map sampleJob, [], [], record, 0⟩ :=
  .single (.discover w _ _ _ [] [] [] record 0 h.discover (.inr rfl))

end OnlyFiles

-- A job that is first in the queue of an idle run is uploaded in one request.
theorem uploads_next {w₀ w : World} {record₀ record : List Text} {d : Discovery} {pending log : List Job}
    {name : SampleName} {content : Bytes} (hsize : content.length < 2)
    (hc : w.tree name.item.src = some content) (hk : name.item.key ∉ record)
    (h : Run sampleService sampleTask sampleConfig (Exec.begin w₀ record₀)
      ⟨w, d, sampleJob (name, content) :: pending, [], log, record, 0⟩) :
    Run sampleService sampleTask sampleConfig (Exec.begin w₀ record₀)
      ⟨w.setFile name.item.dst (some content), d, pending, [], log ++ [sampleJob (name, content)],
        record ++ [name.item.key], 0⟩ := by
  have hsimple : shouldUseMultipart content.length true sampleConfig.checkpointThreshold = false := by
    have hlimit : 2 ≤ adriveSinglePutLimit := by decide
    have hput : ¬ adriveSinglePutLimit < content.length := by omega
    have hthreshold : ¬ sampleConfig.checkpointThreshold ≤ content.length := Nat.not_le.mpr hsize
    simp [shouldUseMultipart, hput, hthreshold]
  have hlaunch := h.tail (.launch w _ (sampleJob (name, content)) _ [] _ _ 0 hk (by decide))
  have hput := hlaunch.tail (.work w _ _ _ [] (sampleJob (name, content)) Stage.start _ [] _ _ 0
    (Transfer.put w content true rfl hc hsimple))
  exact hput.tail (.succeed _ _ _ [] (sampleJob (name, content)) (Stage.done true) [] _ _ 0 rfl)

theorem skips_next {w₀ w : World} {record₀ record : List Text} {d : Discovery} {pending log : List Job}
    {job : Job} (hk : job.key ∈ record)
    (h : Run sampleService sampleTask sampleConfig (Exec.begin w₀ record₀)
      ⟨w, d, job :: pending, [], log, record, 0⟩) :
    Run sampleService sampleTask sampleConfig (Exec.begin w₀ record₀)
      ⟨w, d, pending, [], log ++ [job], record, 0⟩ :=
  h.tail (.skip w d job pending [] log record 0 hk)

theorem sampleTree_source {files : SampleFiles} (h : (files.map Prod.fst).Nodup)
    {file : SampleName × Bytes} (hfile : file ∈ files) : sampleTree files file.1.source = some file.2 := by
  unfold sampleTree
  induction files with
  | nil => cases hfile
  | cons head rest ih =>
    rw [List.map_cons, List.nodup_cons] at h
    rcases List.mem_cons.mp hfile with rfl | hrest
    · rw [List.find?_cons_of_pos (by simp)]
      rfl
    · have hne : ¬ head.1.source = file.1.source := fun he =>
        h.1 (SampleName.source_injective he ▸ List.mem_map_of_mem hrest)
      rw [List.find?_cons_of_neg (by simpa using hne)]
      exact ih h.2 hrest

theorem onlyFiles_fresh {files : SampleFiles} (h : (files.map Prod.fst).Nodup) :
    OnlyFiles (Left.fresh (sampleTree files)).world files where
  present file hfile := sampleTree_source h hfile
  only names hn := by
    change (files.find? _).map Prod.snd ≠ none at hn
    cases hfind : files.find? fun file => decide (file.1.source = .disk names) with
    | none =>
      rw [hfind] at hn
      exact absurd rfl hn
    | some file =>
      have hsource := List.find?_some hfind
      exact ⟨file, List.mem_of_find?_eq_some hfind, (of_decide_eq_true hsource).symm⟩
  nodup := h

theorem OnlyFiles.edited {w : World} {files : SampleFiles} (h : OnlyFiles w files) {name : SampleName}
    (hname : name ∉ files.map Prod.fst) (content : Bytes) :
    OnlyFiles (w.setFile name.source (some content)) (files ++ [(name, content)]) where
  present file hfile := by
    rcases List.mem_append.mp hfile with hfile | hfile
    · have hne : file.1.source ≠ name.source := fun he =>
        hname (SampleName.source_injective he ▸ List.mem_map_of_mem hfile)
      rw [setFile_ne _ _ _ hne]
      exact h.present file hfile
    · rw [List.mem_singleton.mp hfile]
      exact setFile_self ..
  only names hn := by
    by_cases he : .disk names = name.source
    · exact ⟨(name, content), by simp, he⟩
    · rw [setFile_ne _ _ _ he] at hn
      obtain ⟨file, hfile, hsource⟩ := h.only names hn
      exact ⟨file, List.mem_append_left _ hfile, hsource⟩
  nodup := by
    rw [List.map_append, List.map_singleton]
    exact (List.perm_append_singleton name _).nodup_iff.mpr (List.nodup_cons.mpr ⟨hname, h.nodup⟩)

def firstFiles : SampleFiles := [(x, [1]), (y, [2, 3])]

def freshWorld : World := (Left.fresh (sampleTree firstFiles)).world

def wholeRange : PartRange := ⟨1, 0, 2⟩

def storedPart : Nat → Option Bytes := storePart (fun _ => none) wholeRange (wholeRange.slice [2, 3])

def sampleSession : UploadCheckpoint :=
  UploadCheckpoint.pushPart ⟨2, 0, []⟩ ⟨1, charEtag (wholeRange.slice [2, 3])⟩

-- The first run copies `x`, saves one part of `y` in a session and is killed.
def cutWorld : World :=
  ((((freshWorld.setFile x.item.dst (some [1])).initiate.setSession y.item (some (some ⟨2, 0, []⟩))).putUpload 0
    (some storedPart)).setSession y.item (some (some sampleSession)))

def cutRun : Exec :=
  ⟨cutWorld, ⟨freshWorld.tree, (firstFiles.map sampleJob).map Job.src, true⟩, [],
    [(sampleJob (y, [2, 3]), .uploading sampleSession ((ranges 2).filter (· ≠ wholeRange)))],
    [sampleJob (x, [1]), sampleJob (y, [2, 3])], [x.item.key], 0⟩

theorem onlyFiles_first : OnlyFiles freshWorld firstFiles := onlyFiles_fresh (by decide)

theorem runs_cut : Run sampleService sampleTask sampleConfig (Exec.begin freshWorld []) cutRun := by
  have hcopied := uploads_next (by decide) (onlyFiles_first.present (x, [1]) List.mem_cons_self)
    List.not_mem_nil (onlyFiles_first.discovers [])
  have hlaunched := hcopied.tail (.launch _ _ (sampleJob (y, [2, 3])) [] [] _ _ 0 (by decide) (by decide))
  have hinitiated := hlaunched.tail (.work _ _ _ _ [] (sampleJob (y, [2, 3])) Stage.start _ [] _ _ 0
    (Transfer.initiate _ [2, 3] rfl rfl (by decide) rfl))
  exact hinitiated.tail (.work _ _ _ _ [] (sampleJob (y, [2, 3])) _ _ [] _ _ 0
    (Transfer.recordPart _ _ sampleSession _ wholeRange [2, 3] (fun _ => none) (by decide) rfl rfl rfl))

-- Then a third file appears, and the next run skips `x`, resumes `y` and copies `z`.
def grownWorld : World := cutWorld.setFile z.source (some [4])

def grownFiles : SampleFiles := firstFiles ++ [(z, [4])]

def resumedWorld : World :=
  ((grownWorld.putUpload 0 none).setFile y.item.dst
    (some (assembled storedPart sampleSession.completedParts))).setSession y.item none

def resumedRun : Exec :=
  ⟨resumedWorld.setFile z.item.dst (some [4]), ⟨grownWorld.tree, (grownFiles.map sampleJob).map Job.src, true⟩,
    [], [], grownFiles.map sampleJob, [x.item.key, y.item.key, z.item.key], 0⟩

theorem onlyFiles_cut : OnlyFiles cutWorld firstFiles := onlyFiles_first.of_disk fun _ => rfl

theorem onlyFiles_grown : OnlyFiles grownWorld grownFiles := onlyFiles_cut.edited (by decide) [4]

theorem runs_resumed :
    Run sampleService sampleTask sampleConfig (Exec.begin grownWorld [x.item.key]) resumedRun := by
  have hskipped := skips_next List.mem_cons_self (onlyFiles_grown.discovers [x.item.key])
  have hlaunched := hskipped.tail (.launch _ _ (sampleJob (y, [2, 3])) _ [] _ _ 0 (by decide) (by decide))
  have hresumed := hlaunched.tail (.work _ _ _ _ [] (sampleJob (y, [2, 3])) Stage.start _ [] _ _ 0
    (Transfer.resume _ [2, 3] sampleSession rfl rfl (by decide) rfl rfl))
  have hlisted : ∀ p ∈ sampleSession.completedParts, Listed sampleService storedPart p := by
    intro p hp
    rw [List.mem_singleton.mp hp]
    exact ⟨_, storePart_self .., rfl⟩
  have hcompleted := hresumed.tail (.work _ _ _ _ [] (sampleJob (y, [2, 3])) _ _ [] _ _ 0
    (Transfer.complete _ sampleSession [2, 3] storedPart 0 rfl rfl hlisted (.inl rfl) (.inl rfl)))
  have hremoved := hcompleted.tail (.work _ _ _ _ [] (sampleJob (y, [2, 3])) _ _ [] _ _ 0
    (Transfer.removeSession _))
  have hsaved := hremoved.tail (.succeed _ _ _ [] (sampleJob (y, [2, 3])) _ [] _ _ 0 rfl)
  exact uploads_next (by decide) rfl (by decide) hsaved

def resumedHistory : List (Left × Action) :=
  [(Left.fresh (sampleTree firstFiles), .stopped cutRun false),
    (⟨cutWorld, some [x.item.key]⟩, .edit z.source (some [4])),
    (⟨grownWorld, some [x.item.key]⟩, .returned resumedRun [])]

theorem history_resumed : History sampleService sampleTask sampleConfig (Left.fresh (sampleTree firstFiles))
    resumedHistory ⟨resumedRun.world.removeAll [], some resumedRun.record⟩ :=
  .snoc _ _ _ _ (.snoc _ _ _ _ (.snoc [] _ _ _ .nil (.stopped freshWorld [] cutRun false runs_cut))
    (.edit _ z.source (some [4]))) (.returned grownWorld _ resumedRun [] runs_resumed ⟨⟨rfl, rfl, rfl⟩, rfl⟩)

theorem edit_harmless : Harmless sampleTask ⟨cutWorld, some [x.item.key]⟩ z.source (some [4]) := by
  have hleft := (run_left charEtag_injective (fresh_left sampleService sampleTask (sampleTree firstFiles))
    onlyFiles_first.separated runs_cut).1
  refine hleft.harmless (some [4]) ?_ ?_
  · rintro _ ⟨⟩ q i hi hk
    obtain rfl := item_key_inj x.item_source hi (List.mem_singleton.mp hk).symm
    decide
  · intro i s hs
    by_cases hi : i = y.item
    · rw [hi]
      decide
    · have hnone : cutWorld.sessions i = none := by simp [cutWorld, setSession_ne, hi, freshWorld, Left.fresh]
      exact absurd (hnone.symm.trans hs) (by simp)

theorem assembled_whole : assembled storedPart sampleSession.completedParts = [2, 3] := by
  have hparts : sampleSession.completedParts = [⟨1, charEtag (wholeRange.slice [2, 3])⟩] := rfl
  rw [assembled, hparts, sortOn, List.mergeSort_singleton]
  rfl

theorem checkpointed_runs_converge_resumed : cutWorld.sessions y.item = some (some sampleSession) ∧
    resumedRun.world.tree y.item.dst = some [2, 3] ∧ AllConverge sampleTask resumedHistory := by
  have hallowed : ∀ e ∈ resumedHistory, e.2.Allowed sampleTask e.1 := by
    intro e he
    rcases List.mem_cons.mp he with rfl | he
    · exact onlyFiles_first.separated
    · rcases List.mem_cons.mp he with rfl | he
      · exact edit_harmless
      · rw [List.mem_singleton.mp he]
        exact ⟨onlyFiles_grown.separated, by simp, by simp⟩
  have hdst : resumedRun.world.tree y.item.dst = some [2, 3] := by
    have hne : y.item.dst ≠ z.item.dst := by decide
    change (resumedWorld.setFile z.item.dst (some [4])).tree y.item.dst = some [2, 3]
    rw [setFile_ne _ _ _ hne, resumedWorld, setSession_tree, setFile_self, assembled_whole]
  exact ⟨setSession_self .., hdst,
    checkpointed_runs_converge charEtag_injective history_resumed hallowed⟩

-- A run that copied `x`, an edit of `x`, and a run that skips it.
def copiedWorld : World :=
  ((Left.fresh (sampleTree [(x, [1])])).world.setFile x.item.dst (some [1])).removeAll []

def editedWorld : World := copiedWorld.setFile x.source (some [2])

theorem sample_returned : ∃ run, Step sampleService sampleTask sampleConfig
    (Left.fresh (sampleTree [(x, [1])])) (.returned run []) ⟨copiedWorld, some [x.item.key]⟩ := by
  have hfresh : OnlyFiles (Left.fresh (sampleTree [(x, [1])])).world [(x, [1])] := onlyFiles_fresh (by decide)
  have hrun := uploads_next (by decide) (hfresh.present (x, [1]) List.mem_cons_self) List.not_mem_nil
    (hfresh.discovers [])
  exact ⟨_, .returned _ [] _ [] hrun ⟨⟨rfl, rfl, rfl⟩, rfl⟩⟩

theorem onlyFiles_edited : OnlyFiles editedWorld [(x, [2])] where
  present file hfile := by
    rw [List.mem_singleton.mp hfile]
    exact setFile_self ..
  only names hn := by
    by_contra hne
    have hother : .disk names ≠ x.source := fun he => hne ⟨(x, [2]), List.mem_cons_self, he⟩
    rw [editedWorld, setFile_ne _ _ _ hother] at hn
    have hfresh : OnlyFiles (Left.fresh (sampleTree [(x, [1])])).world [(x, [1])] := onlyFiles_fresh (by decide)
    obtain ⟨file, hfile, hsource⟩ := hfresh.only names hn
    rw [List.mem_singleton.mp hfile] at hsource
    exact hother hsource
  nodup := by decide

theorem edited_source_skipped : ¬ ∀ (S : Service) (args : CpArgs) (cwd : List Text) (t : Task)
    (cfg : TransferRuntimeConfig) (tree : Tree) (hist : List (Left × Action)) (l : Left),
    Function.Injective S.etag → args.task cwd = .ok t → History S t cfg (Left.fresh tree) hist l →
      AllConverge t hist := by
  intro h
  obtain ⟨run, hfirst⟩ := sample_returned
  have hfound := onlyFiles_edited.discovers [x.item.key]
  have hsecond := hfound.tail (.skip _ _ _ [] [] _ _ _ (List.mem_singleton_self x.item.key))
  have hhist : History sampleService sampleTask sampleConfig (Left.fresh (sampleTree [(x, [1])])) _ _ :=
    .snoc _ _ _ _ (.snoc _ _ _ _ (.snoc _ _ _ _ .nil hfirst) (.edit _ x.source (some [2])))
      (.returned editedWorld _ _ [] hsecond ⟨⟨rfl, rfl, rfl⟩, rfl⟩)
  have hstale := h sampleService sampleArgs [] sampleTask sampleConfig _ _ _ charEtag_injective
    sampleArgs_task hhist _ (List.mem_append_right _ (List.mem_singleton_self _)) _ _ rfl x.source x.item
    x.item_source [2]
  have hdst : (editedWorld.removeAll []).tree x.item.dst = some [1] := by decide
  have hsrc : (editedWorld.removeAll []).tree x.item.src = some [2] := by decide
  exact absurd (hdst.symm.trans (hstale hsrc)) (by decide)

end Samples

end VeStorage.ADrive.Checkpoint
