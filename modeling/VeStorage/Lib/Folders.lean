import VeStorage.Lib.Walk
import VeStorage.Lib.Worklist
import Mathlib.Data.List.Infix

namespace VeStorage.Lib.Folders
open Walk (Place ChildOf isDirect commonPrefix commonPrefix_childOf isDirect_some)
open Worklist (Reach)

variable (c : Char) (keys : List Text) (root : Text)

-- What is asked at a place: the folders directly below it, and the place itself when it is repeated.
structure Lists (children : Text → List Text) : Prop where
  sound : ∀ a, Place (some c) root a → ∀ b ∈ children a, b = a ∨
    ∃ k ∈ keys, a <+: k ∧ isDirect (some c) a k = false ∧ commonPrefix (some c) a k = b
  complete : ∀ a, Place (some c) root a → ∀ k ∈ keys, a <+: k → isDirect (some c) a k = false →
    commonPrefix (some c) a k ∈ children a

def Folder (d : Text) : Prop := [c] <:+ d ∧ root <+: d ∧ ∃ k ∈ keys, d <+: k

variable {c keys root} {children : Text → List Text} {d d' k t : Text}

theorem commonPrefix_of_prefix (hd : d <+: t) (ht : t <+: k) (h : isDirect (some c) d t = false) :
    isDirect (some c) d k = false ∧ commonPrefix (some c) d k = commonPrefix (some c) d t := by
  obtain ⟨a, rfl⟩ := hd
  obtain ⟨r, rfl⟩ := ht
  have hc : c ∈ a := by simpa [isDirect] using h
  have hstop : ¬ ∀ x ∈ a, decide (x ≠ c) = true := fun hall => by simpa using hall c hc
  refine ⟨?_, ?_⟩
  · simp only [isDirect, List.append_assoc, List.drop_left, decide_eq_false_iff_not, not_not]
    exact List.mem_append_left r hc
  · simp only [commonPrefix, List.append_assoc, List.drop_left]
    rw [List.takeWhile_append, if_neg]
    intro hlength
    exact hstop (List.takeWhile_eq_self_iff.mp ((List.takeWhile_prefix _).eq_of_length hlength))

theorem direct_unique (hp : Place (some c) root d) (hp' : Place (some c) root d')
    (hd : d <+: k) (hk : isDirect (some c) d k = true) (hd' : d' <+: k) (hk' : isDirect (some c) d' k = true) :
    d = d' := by
  have hle := hp.prefix_direct hp'.under_root hd' hk' hd
  have hge := hp'.prefix_direct hp.under_root hd hk hd'
  exact hle.eq_of_length (Nat.le_antisymm hle.length_le hge.length_le)

-- Asking at a place has found every tracked key directly there and heard of the folders of the others.
def Asked (c : Char) (tracked found heard : Set Text) (d : Text) : Prop :=
  ∀ k ∈ tracked, d <+: k →
    (isDirect (some c) d k = true → k ∈ found) ∧
      (isDirect (some c) d k = false → commonPrefix (some c) d k ∈ heard)

theorem Asked.mono {tracked tracked' found found' heard heard' : Set Text} (ht : tracked' ⊆ tracked)
    (hf : found ⊆ found') (hh : heard ⊆ heard') (h : Asked c tracked found heard d) :
    Asked c tracked' found' heard' d := by
  intro k hk hdk
  obtain ⟨hfound, hheard⟩ := h k (ht hk) hdk
  exact ⟨fun hdirect => hf (hfound hdirect), fun hdirect => hh (hheard hdirect)⟩

-- A walk that has asked every place it heard of has found every key it kept track of.
theorem found_of_asked {tracked found seen : Set Text} (hroot : root ∈ seen)
    (hasked : ∀ d ∈ seen, Asked c tracked found seen d) (hk : k ∈ tracked) (hpre : root <+: k) : k ∈ found := by
  have hclimb : ∀ n d, k.length - d.length = n → d ∈ seen → d <+: k → k ∈ found := by
    intro n
    induction n using Nat.strong_induction_on with
    | h n ih =>
      intro d hn hd hdk
      obtain ⟨hfound, hheard⟩ := hasked d hd k hk hdk
      cases hdirect : isDirect (some c) d k with
      | true => exact hfound hdirect
      | false =>
        obtain ⟨hbelow, hchild⟩ := commonPrefix_childOf hdk hdirect
        have hlonger := hbelow.length_lt
        have hwithin := hchild.length_le
        exact ih _ (by omega) _ rfl (hheard hdirect) hchild
  exact hclimb _ root rfl hroot hpre

namespace Lists

variable (h : Lists c keys root children)
include h

theorem child_place {a b : Text} (ha : Place (some c) root a) (hb : b ∈ children a) :
    Place (some c) root b := by
  rcases h.sound a ha b hb with rfl | ⟨k, hk, hak, hdirect, rfl⟩
  · exact ha
  · exact (commonPrefix_childOf hak hdirect).1.place ha

theorem place (hd : Reach children root d) : Place (some c) root d := by
  induction hd with
  | refl => exact .inl rfl
  | tail _ hb ih => exact h.child_place ih hb

theorem exists_direct (hk : k ∈ keys) (ht : t <+: k) (hroot : root <+: t) :
    ∃ d, Reach children root d ∧ d <+: t ∧ isDirect (some c) d t = true := by
  have hclimb : ∀ n d, t.length - d.length = n → Reach children root d → d <+: t →
      ∃ d', Reach children root d' ∧ d' <+: t ∧ isDirect (some c) d' t = true := by
    intro n
    induction n using Nat.strong_induction_on with
    | h n ih =>
      intro d hn hd hdt
      cases hdirect : isDirect (some c) d t with
      | true => exact ⟨d, hd, hdt, hdirect⟩
      | false =>
        obtain ⟨hnot, hsame⟩ := commonPrefix_of_prefix hdt ht hdirect
        have hchild := h.complete d (h.place hd) k hk (hdt.trans ht) hnot
        obtain ⟨hbelow, hpre⟩ := commonPrefix_childOf hdt hdirect
        rw [hsame] at hchild
        have hlonger := hbelow.length_lt
        have hwithin := hpre.length_le
        exact ih _ (by omega) _ rfl (hd.tail hchild) hpre
  exact hclimb _ root rfl .refl hroot

theorem reach_iff : Reach children root d ↔ d = root ∨ Folder c keys root d := by
  constructor
  · intro hd
    induction hd with
    | refl => exact .inl rfl
    | @tail a b ha hb ih =>
      rcases h.sound a (h.place ha) b hb with rfl | ⟨k, hk, hak, hdirect, rfl⟩
      · exact ih
      · obtain ⟨hchild, hpre⟩ := commonPrefix_childOf hak hdirect
        obtain ⟨c', seg, hc, -, hq⟩ := hchild
        obtain rfl : c = c' := Option.some.inj hc
        refine .inr ⟨⟨a ++ seg, ?_⟩, (h.child_place (h.place ha) hb).under_root, k, hk, hpre⟩
        rw [hq, List.append_assoc]
  · rintro (rfl | ⟨⟨e, rfl⟩, hroot, k, hk, hpre⟩)
    · exact .refl
    · rcases List.prefix_concat_iff.mp hroot with rfl | hroot
      · exact .refl
      · obtain ⟨p, hp, hpe, hdirect⟩ := h.exists_direct hk ((List.prefix_append e [c]).trans hpre) hroot
        obtain ⟨name, rfl⟩ := hpe
        have hname : c ∉ name := by simpa [isDirect] using hdirect
        have hopen : isDirect (some c) p (p ++ name ++ [c]) = false := by simp [isDirect]
        have hself : commonPrefix (some c) p (p ++ name ++ [c]) = p ++ name ++ [c] := by
          have hall : ∀ x ∈ name, decide (x ≠ c) = true := fun x hx =>
            decide_eq_true fun he => hname (he ▸ hx)
          simp only [commonPrefix, List.append_assoc, List.drop_left]
          rw [List.takeWhile_append_of_pos hall, List.takeWhile_cons_of_neg (by simp), List.append_nil]
        have hpd : p <+: p ++ name ++ [c] := by
          rw [List.append_assoc]
          exact List.prefix_append p _
        obtain ⟨hnot, hsame⟩ := commonPrefix_of_prefix hpd hpre hopen
        have hchild := h.complete p (h.place hp) k hk (hpd.trans hpre) hnot
        rw [hsame, hself] at hchild
        exact hp.tail hchild

-- Every item below the root is directly below exactly one place.
theorem partition {I : Type} (key : I → Text) {items : List I} {dirs : List Text} (hitems : items.Nodup)
    (hkeys : ∀ i ∈ items, key i ∈ keys) (hnodup : dirs.Nodup) (hdirs : ∀ d, d ∈ dirs ↔ Reach children root d) :
    (dirs.flatMap fun d => items.filter fun i => d <+: key i ∧ isDirect (some c) d (key i)).Perm
      (items.filter fun i => root <+: key i) := by
  refine (List.perm_ext_iff_of_nodup ?_ (hitems.filter _)).mpr fun i => ?_
  · refine List.nodup_flatMap.mpr ⟨fun d _ => hitems.filter _, ?_⟩
    refine hnodup.imp_of_mem fun {d d'} hd hd' hne i hi hi' => hne ?_
    obtain ⟨hdi, hdirect⟩ := of_decide_eq_true (List.mem_filter.mp hi).2
    obtain ⟨hdi', hdirect'⟩ := of_decide_eq_true (List.mem_filter.mp hi').2
    exact direct_unique (h.place ((hdirs d).mp hd)) (h.place ((hdirs d').mp hd')) hdi hdirect hdi' hdirect'
  · rw [List.mem_flatMap, List.mem_filter]
    constructor
    · rintro ⟨d, hd, hi⟩
      obtain ⟨hi, hdi⟩ := List.mem_filter.mp hi
      exact ⟨hi, decide_eq_true ((h.place ((hdirs d).mp hd)).under_root.trans (of_decide_eq_true hdi).1)⟩
    · rintro ⟨hi, hroot⟩
      obtain ⟨d, hd, hdi, hdirect⟩ := h.exists_direct (hkeys i hi) List.prefix_rfl (of_decide_eq_true hroot)
      exact ⟨d, (hdirs d).mpr hd, List.mem_filter.mpr ⟨hi, decide_eq_true ⟨hdi, hdirect⟩⟩⟩

theorem exists_within : ∃ places width, Worklist.Within children root places width := by
  refine ⟨root :: keys.flatMap List.inits, ((root :: keys.flatMap List.inits).map children).flatten.length, ?_⟩
  have hplaces : ∀ d, Reach children root d → d ∈ root :: keys.flatMap List.inits := by
    intro d hd
    rcases h.reach_iff.mp hd with rfl | ⟨-, -, k, hk, hpre⟩
    · exact List.mem_cons_self
    · exact List.mem_cons_of_mem _ (List.mem_flatMap.mpr ⟨k, hk, (List.mem_inits d k).mpr hpre⟩)
  refine ⟨hplaces, fun d hd => (List.sublist_flatten_of_mem ?_).length_le⟩
  exact List.mem_map_of_mem (hplaces d hd)

end Lists

end VeStorage.Lib.Folders
