import Inn.Ovsqlite.Effects
import Mathlib.Order.Interval.Finset.Nat
import Mathlib.Data.Int.Interval

/-!
# Inn.Ovsqlite.Sound — the database between requests

A row of `groupinfo` keeps the number of the group's articles and its low and high marks
beside the rows they are about.

* `Sound` — what holds between requests: the keys of the tables, and the counts and marks
  of the groups that are not deleted (`Marked`);
* `Sound.update`, `Sound.addGroup`, `Sound.addArticle`, .. — the statements, one by one or
  as the requests put them together, keep it;
* `Sound.takeOut_update` — whichever of the three updates follows the removal of some
  articles, the group is right again.
-/

namespace Inn.Ovsqlite

/-- The count and the marks of a group agree with its articles. -/
structure Marked (rows : List Artinfo) (g : Groupinfo) : Prop where
  count : g.count = rows.length
  low_mem : 0 < g.count → ∃ a ∈ rows, a.artnum = g.low
  low_le : 0 < g.count → ∀ a ∈ rows, g.low ≤ a.artnum
  le_high : 0 < g.count → ∀ a ∈ rows, a.artnum ≤ g.high

/-- The database between requests. -/
structure Sound (db : Db) : Prop where
  ids : (db.groupinfo.map (·.groupid)).Nodup
  names : ∀ g ∈ db.groupinfo, ∀ g' ∈ db.groupinfo, g.deleted = 0 → g'.deleted = 0 →
    g.groupname = g'.groupname → g = g'
  keys : (db.artinfo.map fun a => (a.groupid, a.artnum)).Nodup
  owned : ∀ a ∈ db.artinfo, ∃ g ∈ db.groupinfo, g.groupid = a.groupid
  range : ∀ a ∈ db.artinfo, 0 ≤ a.artnum ∧ a.artnum < 2 ^ 63
  expireart : db.expireart = []
  marked : ∀ g ∈ db.groupinfo, g.deleted = 0 → Marked (db.articles g.groupid) g

theorem Sound.empty : Sound Db.empty where
  ids := List.nodup_nil
  names := by
    intro g hg
    cases hg
  keys := List.nodup_nil
  owned := by
    intro a ha
    cases ha
  range := by
    intro a ha
    cases ha
  expireart := rfl
  marked := by
    intro g hg
    cases hg

variable {db db' : Db} {g : Groupinfo}

/-! ## Groups and their articles -/

theorem mem_articles {groupid : ℕ} {a : Artinfo} :
    a ∈ db.articles groupid ↔ a ∈ db.artinfo ∧ a.groupid = groupid := by
  rw [Db.articles, List.mem_filter, decide_eq_true_iff]

theorem mem_updateGroupinfo {sel : Groupinfo → Bool} {set : Groupinfo → Groupinfo} :
    g ∈ (db.updateGroupinfo sel set).1.groupinfo ↔
      ∃ g₀ ∈ db.groupinfo, (if sel g₀ then set g₀ else g₀) = g := List.mem_map

theorem lookup_spec {groupname : List UInt8} (h : db.lookupGroupinfo groupname = some g) :
    g ∈ db.groupinfo ∧ g.deleted = 0 ∧ g.groupname = groupname := by
  have hlive := List.find?_some h
  unfold Db.isLive at hlive
  rw [Bool.and_eq_true, decide_eq_true_iff, decide_eq_true_iff] at hlive
  exact ⟨List.mem_of_find?_eq_some h, hlive⟩

/-- A groupid names one row. -/
theorem Sound.eq_of_groupid (h : Sound db) {g g' : Groupinfo} (hg : g ∈ db.groupinfo)
    (hg' : g' ∈ db.groupinfo) (hid : g.groupid = g'.groupid) : g = g' :=
  List.inj_on_of_nodup_map h.ids hg hg' hid

/-- The articles of a group have different numbers, and so there are at most 2^63. -/
theorem Sound.nodup_artnums (h : Sound db) (groupid : ℕ) :
    ((db.articles groupid).map (·.artnum)).Nodup := by
  refine List.Nodup.map_on ?_ ((List.Nodup.of_map _ h.keys).filter _)
  intro a ha a' ha' hnum
  obtain ⟨ha, hid⟩ := mem_articles.mp ha
  obtain ⟨ha', hid'⟩ := mem_articles.mp ha'
  exact List.inj_on_of_nodup_map h.keys ha ha' (Prod.ext (hid.trans hid'.symm) hnum)

theorem Sound.length_articles_le (h : Sound db) (groupid : ℕ) :
    (db.articles groupid).length ≤ 2 ^ 63 := by
  have hsub : ((db.articles groupid).map (·.artnum)).toFinset ⊆ Finset.Ico (0 : ℤ) (2 ^ 63) := by
    intro x hx
    obtain ⟨a, ha, rfl⟩ := List.mem_map.mp (List.mem_toFinset.mp hx)
    exact Finset.mem_Ico.mpr (h.range a (mem_articles.mp ha).1)
  have hcard := Finset.card_le_card hsub
  rw [List.toFinset_card_of_nodup (h.nodup_artnums groupid), List.length_map, Int.card_Ico] at hcard
  exact hcard

/-- The count of a group, as the server reads it. -/
theorem Sound.uint64_count (h : Sound db) (hg : g ∈ db.groupinfo) (hlive : g.deleted = 0) :
    uint64 g.count = (db.articles g.groupid).length := by
  have hlen := h.length_articles_le g.groupid
  rw [(h.marked g hg hlive).count, uint64_of_nonneg (by omega) (by omega)]
  rfl

/-! ## Changes that leave the marks alone -/

/-- Groups may change if they keep their identity, none is revived, and those still live
agree with their articles. -/
theorem Sound.change (h : Sound db) {set : Groupinfo → Groupinfo}
    (hgroups : db'.groupinfo = db.groupinfo.map set)
    (hid : ∀ g ∈ db.groupinfo, (set g).groupid = g.groupid)
    (hname : ∀ g ∈ db.groupinfo, (set g).groupname = g.groupname)
    (hlive : ∀ g ∈ db.groupinfo, (set g).deleted = 0 → g.deleted = 0)
    (hkeys : (db'.artinfo.map fun a => (a.groupid, a.artnum)).Nodup)
    (howned : ∀ a ∈ db'.artinfo, ∃ g ∈ db.groupinfo, g.groupid = a.groupid)
    (hrange : ∀ a ∈ db'.artinfo, 0 ≤ a.artnum ∧ a.artnum < 2 ^ 63)
    (hexpireart : db'.expireart = [])
    (hmarked : ∀ g ∈ db.groupinfo, (set g).deleted = 0 →
      Marked (db'.articles g.groupid) (set g)) : Sound db' where
  ids := by
    have hids : db'.groupinfo.map (·.groupid) = db.groupinfo.map (·.groupid) := by
      rw [hgroups, List.map_map]
      exact List.map_congr_left hid
    rw [hids]
    exact h.ids
  names := by
    intro g hg g' hg' hd hd' hn
    rw [hgroups] at hg hg'
    obtain ⟨g₀, hg₀, rfl⟩ := List.mem_map.mp hg
    obtain ⟨g₁, hg₁, rfl⟩ := List.mem_map.mp hg'
    rw [hname g₀ hg₀, hname g₁ hg₁] at hn
    rw [h.names g₀ hg₀ g₁ hg₁ (hlive g₀ hg₀ hd) (hlive g₁ hg₁ hd') hn]
  keys := hkeys
  owned := by
    intro a ha
    obtain ⟨g, hg, hga⟩ := howned a ha
    refine ⟨set g, ?_, (hid g hg).trans hga⟩
    rw [hgroups]
    exact List.mem_map_of_mem hg
  range := hrange
  expireart := hexpireart
  marked := by
    intro g hg hd
    rw [hgroups] at hg
    obtain ⟨g₀, hg₀, rfl⟩ := List.mem_map.mp hg
    rw [hid g₀ hg₀]
    exact hmarked g₀ hg₀ hd

/-- An update that touches neither the identity of a group nor its marks, and revives no
group. -/
theorem Sound.update (h : Sound db) {sel : Groupinfo → Bool} {set : Groupinfo → Groupinfo}
    (hid : ∀ g, (set g).groupid = g.groupid) (hname : ∀ g, (set g).groupname = g.groupname)
    (hlive : ∀ g, (set g).deleted = 0 → g.deleted = 0)
    (hmarks : ∀ g, (set g).count = g.count ∧ (set g).low = g.low ∧ (set g).high = g.high) :
    Sound (db.updateGroupinfo sel set).1 := by
  refine h.change rfl ?_ ?_ ?_ h.keys h.owned h.range h.expireart ?_
  · intro g _
    split
    · exact hid g
    · rfl
  · intro g _
    split
    · exact hname g
    · rfl
  · intro g _
    split
    · exact hlive g
    · exact id
  · intro g hg
    split
    · intro hd
      obtain ⟨hcount, hlow, hhigh⟩ := hmarks g
      have hm := h.marked g hg (hlive g hd)
      refine ⟨hcount.trans hm.count, ?_, ?_, ?_⟩
      · rw [hcount, hlow]
        exact hm.low_mem
      · rw [hcount, hlow]
        exact hm.low_le
      · rw [hcount, hhigh]
        exact hm.le_high
    · exact h.marked g hg

theorem Sound.updateGroupinfoFlagAlias (h : Sound db) (groupid : ℕ) (flagAlias : List UInt8) :
    Sound (db.updateGroupinfoFlagAlias groupid flagAlias).1 :=
  h.update (fun _ => rfl) (fun _ => rfl) (fun _ => id) fun _ => ⟨rfl, rfl, rfl⟩

theorem Sound.startExpireGroup (h : Sound db) (groupname : List UInt8) (time : ℤ) :
    Sound (db.startExpireGroup groupname time).1 :=
  h.update (fun _ => rfl) (fun _ => rfl) (fun _ => id) fun _ => ⟨rfl, rfl, rfl⟩

theorem Sound.setGroupDeleted (h : Sound db) (groupname : List UInt8) :
    Sound (db.setGroupDeleted groupname).1 :=
  h.update (fun _ => rfl) (fun _ => rfl) (fun _ hd => absurd hd (Nat.succ_ne_zero _))
    fun _ => ⟨rfl, rfl, rfl⟩

theorem Sound.markForgotten (h : Sound db) (client : Settings) :
    Sound (markForgotten client db) := by
  unfold Inn.Ovsqlite.markForgotten
  split
  · exact h.update (fun _ => rfl) (fun _ => rfl) (fun _ hd => absurd hd (Nat.succ_ne_zero _))
      fun _ => ⟨rfl, rfl, rfl⟩
  · exact h

theorem Sound.deleteEmptyGroups (h : Sound db) : Sound db.deleteEmptyGroups.1 where
  ids := h.ids.sublist ((List.filter_sublist).map _)
  names := by
    intro g hg g' hg'
    exact h.names g (List.mem_filter.mp hg).1 g' (List.mem_filter.mp hg').1
  keys := h.keys
  owned := by
    intro a ha
    obtain ⟨g, hg, hga⟩ := h.owned a ha
    refine ⟨g, List.mem_filter.mpr ⟨hg, ?_⟩, hga⟩
    have hne : (db.articles g.groupid).isEmpty = false := by
      rw [List.isEmpty_eq_false_iff_exists_mem]
      exact ⟨a, mem_articles.mpr ⟨ha, hga.symm⟩⟩
    rw [Db.isEmptyDeleted, hne, Bool.and_false]
    rfl
  range := h.range
  expireart := h.expireart
  marked := by
    intro g hg hd
    exact h.marked g (List.mem_filter.mp hg).1 hd

/-! ## New groups -/

theorem le_foldl_max (l : List ℕ) (m : ℕ) : m ≤ l.foldl max m ∧ ∀ x ∈ l, x ≤ l.foldl max m := by
  induction l generalizing m with
  | nil => exact ⟨le_rfl, fun x hx => absurd hx List.not_mem_nil⟩
  | cons y l ih =>
    obtain ⟨hm, hl⟩ := ih (max m y)
    refine ⟨(le_max_left m y).trans hm, fun x hx => ?_⟩
    rcases List.mem_cons.mp hx with rfl | hx
    · exact (le_max_right m x).trans hm
    · exact hl x hx

theorem groupid_lt_newGroupid (hg : g ∈ db.groupinfo) : g.groupid < db.newGroupid :=
  Nat.lt_succ_of_le ((le_foldl_max _ 0).2 _ (List.mem_map_of_mem hg))

/-- The row of a group that `.add_group` adds. -/
def newGroup (db : Db) (groupname flagAlias : List UInt8) (low high : ℤ) : Groupinfo :=
  { groupid := db.newGroupid, low := low, high := high, count := 0, expired := 0, deleted := 0
    groupname := groupname, flagAlias := flagAlias }

theorem addGroup_some {groupname flagAlias : List UInt8} {low high : ℤ}
    (h : db.addGroup groupname flagAlias low high = some db') :
    (∀ g ∈ db.groupinfo, g.deleted = 0 → g.groupname ≠ groupname) ∧
    db' = { db with groupinfo := db.groupinfo ++ [newGroup db groupname flagAlias low high] } := by
  unfold Db.addGroup at h
  split at h
  · cases h
  · next hany =>
    cases h
    refine ⟨?_, rfl⟩
    intro g hg hd hn
    apply hany
    rw [List.any_eq_true]
    exact ⟨g, hg, by rw [Db.isLive, hd, hn]; simp⟩

theorem Sound.addGroup (h : Sound db) {groupname flagAlias : List UInt8} {low high : ℤ}
    (hadd : db.addGroup groupname flagAlias low high = some db') : Sound db' := by
  obtain ⟨hfree, rfl⟩ := addGroup_some hadd
  have hnone : db.articles db.newGroupid = [] := by
    rw [Db.articles, List.filter_eq_nil_iff]
    intro a ha hid
    obtain ⟨g, hg, hga⟩ := h.owned a ha
    have := groupid_lt_newGroupid hg
    rw [decide_eq_true_iff] at hid
    omega
  refine ⟨?_, ?_, h.keys, ?_, h.range, h.expireart, ?_⟩
  · rw [List.map_append, List.map_cons, List.map_nil, List.nodup_append]
    refine ⟨h.ids, List.nodup_singleton _, ?_⟩
    intro x hx y hy
    obtain ⟨g, hg, rfl⟩ := List.mem_map.mp hx
    rw [List.mem_singleton.mp hy]
    exact (groupid_lt_newGroupid hg).ne
  · intro g hg g' hg' hd hd' hn
    rcases List.mem_append.mp hg with hg | hg <;> rcases List.mem_append.mp hg' with hg' | hg'
    · exact h.names g hg g' hg' hd hd' hn
    · rw [List.mem_singleton.mp hg'] at hn
      exact absurd hn (hfree g hg hd)
    · rw [List.mem_singleton.mp hg] at hn
      exact absurd hn.symm (hfree g' hg' hd')
    · rw [List.mem_singleton.mp hg, List.mem_singleton.mp hg']
  · intro a ha
    obtain ⟨g, hg, hga⟩ := h.owned a ha
    exact ⟨g, List.mem_append_left _ hg, hga⟩
  · intro g hg hd
    rcases List.mem_append.mp hg with hg | hg
    · exact h.marked g hg hd
    · rw [List.mem_singleton.mp hg]
      refine ⟨?_, ?_, ?_, ?_⟩
      · change (0 : ℤ) = (db.articles db.newGroupid).length
        rw [hnone]
        rfl
      all_goals
        intro hpos
        exact absurd hpos (lt_irrefl 0)

/-! ## One group and its articles -/

/-- Updating the row of one group puts one row in its place. -/
theorem Sound.updateGroupinfo_one (h : Sound db) (hg : g ∈ db.groupinfo) {db' : Db}
    (hgroups : db'.groupinfo = db.groupinfo) (set : Groupinfo → Groupinfo) :
    (db'.updateGroupinfo (fun g' => g'.groupid = g.groupid) set).1.groupinfo =
      db.groupinfo.map fun g' => if g'.groupid = g.groupid then set g else g' := by
  unfold Db.updateGroupinfo
  rw [hgroups]
  apply List.map_congr_left
  intro g' hg'
  simp only [decide_eq_true_eq]
  split
  · next hid => rw [h.eq_of_groupid hg' hg hid]
  · rfl

/-- A live group and its articles may change together. -/
theorem Sound.replace (h : Sound db) (hg : g ∈ db.groupinfo) (g₁ : Groupinfo)
    (hgroups : db'.groupinfo = db.groupinfo.map fun g' => if g'.groupid = g.groupid then g₁ else g')
    (hid : g₁.groupid = g.groupid) (hname : g₁.groupname = g.groupname)
    (hlive : g₁.deleted = g.deleted)
    (hkeys : (db'.artinfo.map fun a => (a.groupid, a.artnum)).Nodup)
    (howned : ∀ a ∈ db'.artinfo, ∃ g ∈ db.groupinfo, g.groupid = a.groupid)
    (hrange : ∀ a ∈ db'.artinfo, 0 ≤ a.artnum ∧ a.artnum < 2 ^ 63)
    (hexpireart : db'.expireart = [])
    (hothers : ∀ groupid, groupid ≠ g.groupid → db'.articles groupid = db.articles groupid)
    (hmarked : Marked (db'.articles g.groupid) g₁) : Sound db' := by
  refine h.change hgroups ?_ ?_ ?_ hkeys howned hrange hexpireart ?_
  · intro g' _
    split
    · next hid' => exact hid.trans hid'.symm
    · rfl
  · intro g' hg'
    split
    · next hid' => rw [hname, h.eq_of_groupid hg' hg hid']
    · rfl
  · intro g' hg'
    split
    · next hid' =>
      rw [hlive, h.eq_of_groupid hg' hg hid']
      exact id
    · exact id
  · intro g' hg'
    split
    · next hid' =>
      intro _
      rw [hid']
      exact hmarked
    · next hid' =>
      rw [hothers _ hid']
      exact h.marked g' hg'

/-! ## Adding an article -/

/-- The row of a group after `.update_groupinfo_add`. -/
def Groupinfo.added (g : Groupinfo) (artnum : ℤ) : Groupinfo :=
  { g with
    low := if g.count ≠ 0 then min g.low artnum else artnum
    high := if g.count ≠ 0 then max g.high artnum else artnum
    count := g.count + 1 }

theorem Marked.added {rows : List Artinfo} (h : Marked rows g) (a : Artinfo) :
    Marked (rows ++ [a]) (g.added a.artnum) := by
  have hlen : (g.added a.artnum).count = (rows ++ [a]).length := by
    change g.count + 1 = _
    rw [h.count, List.length_append, List.length_singleton]
    rfl
  by_cases hzero : g.count = 0
  · have hnil : rows = [] := by
      have := h.count
      rw [hzero] at this
      exact List.length_eq_zero_iff.mp (by omega)
    subst hnil
    have hlow : (g.added a.artnum).low = a.artnum := if_neg (not_not.mpr hzero)
    have hhigh : (g.added a.artnum).high = a.artnum := if_neg (not_not.mpr hzero)
    refine ⟨hlen, fun _ => ⟨a, List.mem_singleton_self a, hlow.symm⟩, ?_, ?_⟩
    · intro _ a' ha'
      rw [hlow, List.mem_singleton.mp ha']
    · intro _ a' ha'
      rw [hhigh, List.mem_singleton.mp ha']
  · have hpos : 0 < g.count := by
      have := h.count
      omega
    have hlow : (g.added a.artnum).low = min g.low a.artnum := if_pos hzero
    have hhigh : (g.added a.artnum).high = max g.high a.artnum := if_pos hzero
    refine ⟨hlen, fun _ => ?_, ?_, ?_⟩
    · rw [hlow]
      rcases min_choice g.low a.artnum with hmin | hmin
      · obtain ⟨a', ha', hnum⟩ := h.low_mem hpos
        exact ⟨a', List.mem_append_left _ ha', hnum.trans hmin.symm⟩
      · exact ⟨a, List.mem_append_right _ (List.mem_singleton_self a), hmin.symm⟩
    · intro _ a' ha'
      rw [hlow]
      rcases List.mem_append.mp ha' with ha' | ha'
      · exact (min_le_left _ _).trans (h.low_le hpos a' ha')
      · rw [List.mem_singleton.mp ha']
        exact min_le_right _ _
    · intro _ a' ha'
      rw [hhigh]
      rcases List.mem_append.mp ha' with ha' | ha'
      · exact (h.le_high hpos a' ha').trans (le_max_left _ _)
      · rw [List.mem_singleton.mp ha']
        exact le_max_right _ _

theorem addArticle_ok {a : Artinfo} (h : db.addArticle a = .ok db') :
    (∀ a' ∈ db.artinfo, a'.groupid = a.groupid → a'.artnum ≠ a.artnum) ∧
    db' = { db with artinfo := db.artinfo ++ [a] } := by
  unfold Db.addArticle at h
  split at h
  · cases h
  next hkey =>
  split at h
  · cases h
  · cases h
    refine ⟨?_, rfl⟩
    intro a' ha' hid hnum
    apply hkey
    rw [List.any_eq_true]
    exact ⟨a', ha', by rw [hid, hnum]; simp⟩

/-- A new article and the update of its group. -/
theorem Sound.addArticle (h : Sound db) (hg : g ∈ db.groupinfo) {a : Artinfo}
    {db₁ : Db} (ha : a.groupid = g.groupid) (hrange : 0 ≤ a.artnum ∧ a.artnum < 2 ^ 63)
    (hlive : g.deleted = 0) (hadd : db.addArticle a = .ok db₁) :
    Sound (db₁.updateGroupinfoAdd g.groupid a.artnum) := by
  obtain ⟨hkey, rfl⟩ := addArticle_ok hadd
  refine h.replace hg (g.added a.artnum) (h.updateGroupinfo_one hg rfl _) rfl rfl rfl
    ?_ ?_ ?_ h.expireart ?_ ?_
  · change ((db.artinfo ++ [a]).map fun a => (a.groupid, a.artnum)).Nodup
    rw [List.map_append, List.nodup_append]
    refine ⟨h.keys, List.nodup_singleton _, ?_⟩
    intro x hx y hy hxy
    obtain ⟨a', ha', rfl⟩ := List.mem_map.mp hx
    obtain rfl := List.mem_singleton.mp hy
    obtain ⟨hid, hnum⟩ := Prod.mk.inj hxy
    exact hkey a' ha' hid hnum
  · intro a' ha'
    rcases List.mem_append.mp ha' with ha' | ha'
    · exact h.owned a' ha'
    · rw [List.mem_singleton.mp ha']
      exact ⟨g, hg, ha.symm⟩
  · intro a' ha'
    rcases List.mem_append.mp ha' with ha' | ha'
    · exact h.range a' ha'
    · rw [List.mem_singleton.mp ha']
      exact hrange
  · intro groupid hne
    change (db.artinfo ++ [a]).filter _ = _
    rw [List.filter_append, List.filter_singleton, ha,
      decide_eq_false (fun h => hne h.symm : ¬ g.groupid = groupid)]
    exact List.append_nil _
  · change Marked ((db.artinfo ++ [a]).filter _) _
    rw [List.filter_append, List.filter_singleton, ha, decide_eq_true rfl]
    exact (h.marked g hg hlive).added a

/-! ## Taking articles out -/

theorem takeOut_snd (db : Db) (groupid : ℕ) (nums : List ℤ) : (takeOut db groupid nums).2 =
    ((db.articles groupid).filter fun a => a.artnum ∈ nums).length := by
  simp only [takeOut, Db.deleteArtinfo, Db.articles, List.filter_filter, Bool.and_comm]

theorem articles_takeOut (db : Db) (groupid : ℕ) (nums : List ℤ) :
    (takeOut db groupid nums).1.articles groupid =
      (db.articles groupid).filter fun a => !decide (a.artnum ∈ nums) := by
  unfold takeOut Db.deleteArtinfo Db.articles
  simp only [List.filter_filter]
  congr 1
  funext a
  by_cases hid : a.groupid = groupid <;> simp [hid]

theorem articles_takeOut_of_ne {groupid groupid' : ℕ} (hne : groupid' ≠ groupid)
    (nums : List ℤ) : (takeOut db groupid nums).1.articles groupid' = db.articles groupid' := by
  unfold takeOut Db.deleteArtinfo Db.articles
  simp only [List.filter_filter]
  congr 1
  funext a
  by_cases hid : a.groupid = groupid'
  · simp [hid, hne]
  · simp [hid]

theorem mem_takeOut {groupid : ℕ} {nums : List ℤ} {a : Artinfo} :
    a ∈ (takeOut db groupid nums).1.artinfo ↔
      a ∈ db.artinfo ∧ ¬ (a.groupid = groupid ∧ a.artnum ∈ nums) := by
  unfold takeOut Db.deleteArtinfo
  rw [List.mem_filter, Bool.not_eq_true', ← Bool.not_eq_true, Bool.and_eq_true, decide_eq_true_iff,
    decide_eq_true_iff]

theorem keys_takeOut (h : Sound db) (groupid : ℕ) (nums : List ℤ) :
    ((takeOut db groupid nums).1.artinfo.map fun a => (a.groupid, a.artnum)).Nodup :=
  h.keys.sublist ((List.filter_sublist).map _)

/-- Nothing is taken out of a table that has none of it. -/
theorem takeOut_none {groupid : ℕ} {nums : List ℤ} (h : (takeOut db groupid nums).2 = 0) :
    (takeOut db groupid nums).1 = db := by
  have hfilter : db.artinfo.filter (fun a => !(decide (a.groupid = groupid) &&
      decide (a.artnum ∈ nums))) = db.artinfo := by
    rw [List.filter_eq_self]
    intro a ha
    have := List.filter_eq_nil_iff.mp (List.length_eq_zero_iff.mp h) a ha
    rw [Bool.not_eq_true']
    exact Bool.eq_false_iff.mpr this
  change ({ db with artinfo := db.artinfo.filter _ } : Db) = db
  rw [hfilter]

/-- Articles may be taken out of a deleted group without any update of its row. -/
theorem Sound.takeOut_deleted (h : Sound db) (hg : g ∈ db.groupinfo) (hdel : 0 < g.deleted)
    (nums : List ℤ) : Sound (takeOut db g.groupid nums).1 where
  ids := h.ids
  names := h.names
  keys := keys_takeOut h _ _
  owned := fun a ha => h.owned a (mem_takeOut.mp ha).1
  range := fun a ha => h.range a (mem_takeOut.mp ha).1
  expireart := h.expireart
  marked := by
    intro g' hg' hd
    rw [articles_takeOut_of_ne]
    · exact h.marked g' hg' hd
    · intro hid
      rw [h.eq_of_groupid hg' hg hid] at hd
      omega

/-- How a request moves the marks of a group: up; as `.update_groupinfo_delete_all` sets
them, for the last articles; to the number of its first article; or, if `early`, the low
mark down to the number of an article added below it. -/
inductive MarksMove (early : Prop) (g g' : Groupinfo) : Prop where
  | up : g.low ≤ g'.low → g.high ≤ g'.high → MarksMove early g g'
  | emptied : 0 < g.count → g'.count = 0 → g'.low = max g.high 1 →
      g'.high = max (g.high - 1) 0 → MarksMove early g g'
  | first : g.count = 0 → g'.count = 1 → g'.low = g'.high → MarksMove early g g'
  | lowered : early → 0 < g.count → g'.count = g.count + 1 → g'.low < g.low →
      g'.high = g.high → MarksMove early g g'

variable {early : Prop} {rows : List Artinfo} {nums : List ℤ} {f : Faults}

theorem MarksMove.refl (g : Groupinfo) : MarksMove early g g := .up le_rfl le_rfl

/-- The rows left and the row of the group, after articles are taken out. -/
structure Remarked (early : Prop) (rows : List Artinfo) (g g₁ : Groupinfo) : Prop where
  groupid : g₁.groupid = g.groupid
  groupname : g₁.groupname = g.groupname
  deleted : g₁.deleted = g.deleted
  marked : Marked rows g₁
  moves : MarksMove early g g₁

/-- Of a group's articles, those taken out and those left. -/
theorem length_filter_add (rows : List Artinfo) (nums : List ℤ) :
    rows.length = (rows.filter fun a => a.artnum ∈ nums).length +
      (rows.filter fun a => !decide (a.artnum ∈ nums)).length :=
  List.length_eq_length_filter_add _

theorem remarked_deleteAll (hpos : 0 < g.count) (changes : ℤ)
    (hall : (rows.filter fun a => a.artnum ∈ nums).length = rows.length) :
    Remarked early (rows.filter fun a => !decide (a.artnum ∈ nums)) g
      { g with low := max g.high 1, high := max (g.high - 1) 0, count := changes * 0 } := by
  have hlen := length_filter_add rows nums
  have hnil : (rows.filter fun a => !decide (a.artnum ∈ nums)) = [] :=
    List.length_eq_zero_iff.mp (by omega)
  have hzero : changes * 0 = 0 := mul_zero changes
  refine ⟨rfl, rfl, rfl, ?_, .emptied hpos hzero rfl rfl⟩
  rw [hnil]
  refine ⟨hzero, ?_, ?_, ?_⟩
  all_goals
    intro hlt
    exact absurd hzero hlt.ne'

theorem Marked.deleteLow (h : Marked rows g) (hpos : 0 < g.count) {least : ℤ}
    (hleast : ((rows.filter fun a => !decide (a.artnum ∈ nums)).map (·.artnum)).min? = some least) :
    Remarked early (rows.filter fun a => !decide (a.artnum ∈ nums)) g
      { g with low := least
               count := g.count - (rows.filter fun a => a.artnum ∈ nums).length } := by
  have hlen := length_filter_add rows nums
  obtain ⟨hmem, hle⟩ := List.min?_eq_some_iff.mp hleast
  obtain ⟨a, ha, hnum⟩ := List.mem_map.mp hmem
  refine ⟨rfl, rfl, rfl, ⟨?_, fun _ => ⟨a, ha, hnum⟩, ?_, ?_⟩, .up ?_ le_rfl⟩
  · have := h.count
    change g.count - _ = _
    omega
  · intro _ a' ha'
    exact hle _ (List.mem_map_of_mem ha')
  · intro _ a' ha'
    exact h.le_high hpos a' (List.mem_filter.mp ha').1
  · rw [← hnum]
    exact h.low_le hpos a (List.mem_filter.mp ha).1

theorem Marked.deleteMiddle (h : Marked rows g) (hpos : 0 < g.count) (hlow : g.low ∉ nums) :
    Remarked early (rows.filter fun a => !decide (a.artnum ∈ nums)) g
      { g with count := g.count - (rows.filter fun a => a.artnum ∈ nums).length } := by
  have hlen := length_filter_add rows nums
  obtain ⟨a, ha, hnum⟩ := h.low_mem hpos
  refine ⟨rfl, rfl, rfl, ⟨?_, fun _ => ⟨a, List.mem_filter.mpr ⟨ha, ?_⟩, hnum⟩, ?_, ?_⟩,
    .up le_rfl le_rfl⟩
  · have := h.count
    change g.count - _ = _
    omega
  · rw [hnum, decide_eq_false hlow]
    rfl
  · intro _ a' ha'
    exact h.low_le hpos a' (List.mem_filter.mp ha').1
  · intro _ a' ha'
    exact h.le_high hpos a' (List.mem_filter.mp ha').1

/-- Whichever of the three updates the server picks, the group is right again. -/
theorem Sound.takeOut_update (h : Sound db) (hg : g ∈ db.groupinfo) (hlive : g.deleted = 0)
    {nums : List ℕ} (hlt : ∀ n ∈ nums, n < 2 ^ 64)
    (hchanges : (takeOut db g.groupid (nums.map int64)).2 ≠ 0)
    (hupd : updateGroupinfoDelete f (takeOut db g.groupid (nums.map int64)).1 g.groupid
      (takeOut db g.groupid (nums.map int64)).2
      ((takeOut db g.groupid (nums.map int64)).2 = uint64 g.count) (uint64 g.low ∈ nums) =
        .ok db') :
    Sound db' ∧ ∃ g₁, Remarked early (db'.articles g.groupid) g g₁ ∧
      db'.groupinfo = db.groupinfo.map fun g' => if g'.groupid = g.groupid then g₁ else g' := by
  have hmarked := h.marked g hg hlive
  have hsnd := takeOut_snd db g.groupid (nums.map int64)
  have hrows := articles_takeOut db g.groupid (nums.map int64)
  have hpos : 0 < g.count := by
    have hlen := length_filter_add (db.articles g.groupid) (nums.map int64)
    have := hmarked.count
    omega
  -- the low mark is the number of an article, so the server finds it in the list if it is there
  have hlow : uint64 g.low ∈ nums ↔ g.low ∈ nums.map int64 := by
    obtain ⟨a, ha, hnum⟩ := hmarked.low_mem hpos
    have hrange := h.range a (mem_articles.mp ha).1
    rw [hnum] at hrange
    constructor
    · intro hmem
      have := List.mem_map_of_mem (f := int64) hmem
      rwa [int64_uint64 (by omega) hrange.2] at this
    · intro hmem
      obtain ⟨n, hn, heq⟩ := List.mem_map.mp hmem
      rw [← heq, uint64_int64 (hlt n hn)]
      exact hn
  -- whatever the update, it replaces the row of the group alone
  suffices hrow : ∃ set : Groupinfo → Groupinfo,
      db' = ((takeOut db g.groupid (nums.map int64)).1.updateGroupinfo
        (fun g' => g'.groupid = g.groupid) set).1 ∧
      Remarked early ((takeOut db g.groupid (nums.map int64)).1.articles g.groupid) g (set g) by
    obtain ⟨set, rfl, hre⟩ := hrow
    have hgroups := @Sound.updateGroupinfo_one _ _ h hg
      (takeOut db g.groupid (nums.map int64)).1 rfl set
    refine ⟨?_, set g, hre, hgroups⟩
    refine h.replace hg _ hgroups hre.groupid hre.groupname hre.deleted (keys_takeOut h _ _) ?_ ?_
      h.expireart ?_ hre.marked
    · intro a ha
      exact h.owned a (mem_takeOut.mp ha).1
    · intro a ha
      exact h.range a (mem_takeOut.mp ha).1
    · intro groupid hne
      exact articles_takeOut_of_ne hne _
  rw [hrows]
  unfold updateGroupinfoDelete at hupd
  split at hupd
  · next hall =>
    refine ⟨_, (exec_ok hupd).symm, remarked_deleteAll hpos _ ?_⟩
    rw [decide_eq_true_iff, h.uint64_count hg hlive] at hall
    rw [← hsnd, hall]
  split at hupd
  · obtain ⟨updated, hexec, hupd⟩ := bind_ok.mp hupd
    have hexec := exec_ok hexec
    cases updated with
    | none => cases hupd
    | some db₁ =>
      cases hupd
      unfold Db.updateGroupinfoDeleteLow Db.minArtnum at hexec
      rw [hrows] at hexec
      split at hexec
      · split at hexec
        · cases hexec
        · next hany =>
          refine absurd ?_ hany
          rw [List.any_eq_true]
          exact ⟨g, hg, decide_eq_true rfl⟩
      · next least hleast =>
        refine ⟨_, (Option.some.inj hexec).symm, ?_⟩
        rw [hsnd]
        exact hmarked.deleteLow hpos hleast
  · next hhit =>
    refine ⟨_, (exec_ok hupd).symm, ?_⟩
    rw [hsnd]
    refine hmarked.deleteMiddle hpos fun hmem => hhit ?_
    exact decide_eq_true (hlow.mpr hmem)

end Inn.Ovsqlite
