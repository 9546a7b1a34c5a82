import Assayist.Proofs.VmTable

/-! What addressing the map by handle is worth. The map is keyed by interface index, and a
`state` or `remove` reaches the first entry that carries its handle; it reaches them all as
long as a handle is in one entry, which an `add` need not keep. -/

namespace Assayist

namespace Owner

section Line

variable {kernel : Kernel} {o : State} {line : String}

/-- What an `ok` is taken to mean: a removed handle is in no entry any more, and all entries
of a handle are in the state it was put in. -/
def Addressed (kernel : Kernel) (o : State) (line : String) : Prop :=
  (serveLine kernel o line).1 = "ok" →
    (∀ handle, reads line = .ok (.remove handle) →
      ∀ e ∈ (serveLine kernel o line).2.map.entries, carries e ≠ handle) ∧
    ∀ handle s, reads line = .ok (.state handle s) →
      ∀ e ∈ (serveLine kernel o line).2.map.entries, carries e = handle →
        (VmCtx.fromBytes e.2).lifecycleState = s

/-- The kernel takes an update under a key: it does not refuse, and the key is there or room
is left. -/
def Takes (kernel : Kernel) (o : State) (key : List UInt8) : Prop :=
  kernel.refuses o.served = none ∧
    (o.map.lookup key = none → o.map.entries.length < kernel.maxEntries)

/-- An `add` that the kernel takes names no handle that another interface's entry carries. -/
def Fresh (kernel : Kernel) (o : State) (line : String) : Prop :=
  ∀ ifindex handle netnsInum, reads line = .ok (.add ifindex handle netnsInum) →
    Takes kernel o (keyBytes ifindex) →
      ∀ e ∈ o.map.entries, carries e = handle → e.1 = keyBytes ifindex

theorem update_isOk {value key : List UInt8} :
    (∃ m', o.map.update kernel o.served key value = .ok m') ↔ Takes kernel o key := by
  unfold BpfMap.update Takes
  cases kernel.refuses o.served with
  | some e => simp
  | none =>
    split_ifs with h
    · simp only [exists_false, true_and, false_iff, not_forall, not_lt]
      exact ⟨h.1, h.2⟩
    · refine iff_of_true ⟨_, rfl⟩ ⟨rfl, fun hnone => ?_⟩
      by_contra hfull
      exact h ⟨hnone, not_lt.1 hfull⟩

/-- An `ok` means that the line was read and its command took effect. -/
theorem serveLine_ok (h : (serveLine kernel o line).1 = "ok") :
    ∃ cmd r, reads line = .ok cmd ∧ applyMap kernel o.served o.map o.stats cmd = .ok r := by
  have herr (e : String) : "err " ++ e ≠ "ok" := by
    intro heq
    have hlist := congrArg String.toList heq
    rw [String.toList_append] at hlist
    exact absurd (List.cons.inj hlist).1 (by decide)
  cases hreads : reads line with
  | error e =>
    unfold serveLine at h
    rw [← reads, hreads] at h
    exact absurd h (herr e)
  | ok cmd =>
    cases happly : applyMap kernel o.served o.map o.stats cmd with
    | error e =>
      rw [serveLine_rejects hreads happly] at h
      exact absurd h (herr e)
    | ok r => exact ⟨cmd, r, rfl, happly⟩

theorem carries_others_ne (hone : o.handles.Nodup) {key cur : List UInt8}
    (hcur : o.map.lookup key = some cur) :
    ∀ e ∈ o.map.others key, carries e ≠ (VmCtx.fromBytes cur).vmId := by
  have hperm := (entries_perm hcur).map carries
  rw [← handles_eq, List.map_cons] at hperm
  have hsplit := (List.nodup_cons.1 (hperm.nodup_iff.1 hone)).1
  intro e he heq
  apply hsplit
  rw [carries, ← heq]
  exact List.mem_map_of_mem he

theorem addressed_of_nodup (hone : o.handles.Nodup) (line : String) : Addressed kernel o line := by
  intro hok
  obtain ⟨cmd, r, hreads, happly⟩ := serveLine_ok hok
  rw [serveLine_map hreads happly]
  apply And.intro
  · intro handle hremove e he
    obtain rfl := Except.ok.inj (hreads.symm.trans hremove)
    obtain ⟨key, cur, hcur, rfl, hm⟩ := applyMap_remove happly
    rw [hm] at he
    exact carries_others_ne hone hcur e he
  · intro handle s hstate e he hcarries
    obtain rfl := Except.ok.inj (hreads.symm.trans hstate)
    obtain ⟨key, cur, hcur, rfl, hupdate⟩ := applyMap_state happly
    rcases List.mem_cons.1 ((update_perm hupdate).mem_iff.1 he) with rfl | hother
    · rw [fromBytes_asBytes]
    · exact absurd hcarries (carries_others_ne hone hcur e hother)

theorem serveLine_remove {handle : UInt64} (h : handle ∈ o.handles)
    (hreads : reads line = .ok (.remove handle)) :
    (serveLine kernel o line).1 = "ok" ∧
      o.handles.Perm (handle :: (serveLine kernel o line).2.handles) := by
  cases happly : applyMap kernel o.served o.map o.stats (.remove handle) with
  | error e => exact absurd h (applyMap_remove_error happly)
  | ok r =>
    obtain ⟨key, cur, hcur, hid, hm⟩ := applyMap_remove happly
    refine ⟨serveLine_accepts hreads happly, ?_⟩
    have hperm := (entries_perm hcur).map carries
    rw [List.map_cons, carries, hid] at hperm
    rw [handles_eq, handles_eq, serveLine_map hreads happly, hm]
    exact hperm

/-- The commands are addressed right, whichever comes next, exactly while no handle is in two
entries. -/
theorem addressed_iff : (∀ line, Addressed kernel o line) ↔ o.handles.Nodup := by
  apply Iff.intro
  · intro haddressed
    rw [List.nodup_iff_count_le_one]
    intro handle
    by_contra hmany
    have hmem : handle ∈ o.handles := List.count_pos_iff.1 (by omega)
    have hreads : reads (removeLine handle.toNat) = .ok (.remove handle) := by
      rw [reads_removeLine, if_pos handle.toNat_lt, UInt64.ofNat_toNat]
    obtain ⟨hok, hperm⟩ := @serveLine_remove kernel o _ handle hmem hreads
    have hleft : handle ∈ (serveLine kernel o (removeLine handle.toNat)).2.handles := by
      apply List.count_pos_iff.1
      rw [hperm.count_eq, List.count_cons_self] at hmany
      omega
    obtain ⟨e, he, hcarries⟩ := List.mem_map.1 hleft
    exact (haddressed _ hok).1 handle hreads e he hcarries
  · intro hone line
    exact addressed_of_nodup hone line

/-- An `add` taken under a key leaves its handle beside those of the other keys. -/
theorem nodup_add_iff (hone : o.handles.Nodup) {m' : BpfMap} {key : List UInt8}
    {handle : UInt64} {netnsInum : UInt32}
    (h : o.map.update kernel o.served key (VmCtx.asBytes ⟨handle, netnsInum, lifecycleRunning⟩) =
      .ok m') :
    (m'.entries.map carries).Nodup ↔ ∀ e ∈ o.map.entries, carries e = handle → e.1 = key := by
  have hperm := (update_perm h).map carries
  rw [List.map_cons, carries, fromBytes_asBytes] at hperm
  have hothers : ((o.map.others key).map carries).Nodup :=
    hone.sublist ((others_sublist _ _).map carries)
  rw [hperm.nodup_iff, List.nodup_cons, and_iff_left hothers, List.mem_map]
  apply Iff.intro
  · intro hnone e he hcarries
    by_contra hne
    exact hnone ⟨e, List.mem_filter.2 ⟨he, by simpa using hne⟩, hcarries⟩
  · intro hall hsome
    obtain ⟨e, he, hcarries⟩ := hsome
    obtain ⟨hmem, hne⟩ := List.mem_filter.1 he
    exact absurd (hall e hmem hcarries) (by simpa using hne)

theorem applyMap_add_ok {k : ℕ} {m m' : BpfMap} {stats : Stats} {ifindex netnsInum : UInt32}
    {handle : UInt64} (h : m.update kernel k (keyBytes ifindex)
      (VmCtx.asBytes ⟨handle, netnsInum, lifecycleRunning⟩) = .ok m') :
    ∃ r, applyMap kernel k m stats (.add ifindex handle netnsInum) = .ok r := by
  unfold keyBytes at h
  unfold applyMap
  simp only [h]
  exact ⟨_, rfl⟩

theorem nodup_serveLine_iff (hone : o.handles.Nodup) (line : String) :
    (serveLine kernel o line).2.handles.Nodup ↔ Fresh kernel o line := by
  by_cases hadd : ∃ ifindex handle netnsInum, reads line = .ok (.add ifindex handle netnsInum)
  · obtain ⟨ifindex, handle, netnsInum, hreads⟩ := hadd
    have hfresh : Fresh kernel o line ↔ (Takes kernel o (keyBytes ifindex) →
        ∀ e ∈ o.map.entries, carries e = handle → e.1 = keyBytes ifindex) := by
      apply Iff.intro
      · intro h
        exact h ifindex handle netnsInum hreads
      · intro h i g n hreads'
        obtain ⟨rfl, rfl, rfl⟩ := Command.add.inj (Except.ok.inj (hreads.symm.trans hreads'))
        exact h
    rw [hfresh, handles_eq]
    cases happly : applyMap kernel o.served o.map o.stats (.add ifindex handle netnsInum) with
    | error e =>
      rw [serveLine_refused hreads happly]
      refine iff_of_true hone fun htakes => ?_
      obtain ⟨m', hupdate⟩ := update_isOk.2 htakes
      obtain ⟨r, hr⟩ := applyMap_add_ok hupdate
      rw [happly] at hr
      cases hr
    | ok r =>
      have hupdate := applyMap_add happly
      rw [serveLine_map hreads happly, nodup_add_iff hone hupdate]
      exact (imp_iff_right (update_isOk.1 ⟨_, hupdate⟩)).symm
  · refine iff_of_true ?_ fun i g n hreads => absurd ⟨i, g, n, hreads⟩ hadd
    have hchanges := @serveLine_changes kernel o line
    generalize (serveLine kernel o line).2.handles = hs' at hchanges ⊢
    generalize o.handles = hs at hchanges hone
    cases hchanges with
    | none => exact hone
    | add hreads => exact absurd ⟨_, _, _, hreads⟩ hadd
    | state _ hperm => exact hperm.nodup_iff.2 hone
    | remove _ hperm => exact (List.nodup_cons.1 (hperm.nodup_iff.1 hone)).2

end Line

section Runs

theorem nodup_new : State.new.handles.Nodup := List.nodup_nil

/-- Over a run, the handles stay apart exactly as long as every line is fresh. -/
theorem nodup_run_iff (kernel : Kernel) (lines : List String) :
    (∀ pre, pre <+: lines → (serve kernel .new pre).handles.Nodup) ↔
      ∀ pre line, pre ++ [line] <+: lines → Fresh kernel (serve kernel .new pre) line := by
  apply Iff.intro
  · intro h pre line hpre
    have hone := h pre ((List.prefix_append _ _).trans hpre)
    rw [← nodup_serveLine_iff hone, ← serve_concat]
    exact h _ hpre
  · intro h pre
    induction pre using List.reverseRecOn with
    | nil =>
      intro _
      exact nodup_new
    | append_singleton pre line ih =>
      intro hpre
      rw [serve_concat, nodup_serveLine_iff (ih ((List.prefix_append _ _).trans hpre))]
      exact h pre line hpre

/-- Every part of a run leaves all commands addressed right exactly where every line of the
run is fresh. -/
theorem addressed_run_iff (kernel : Kernel) (lines : List String) :
    (∀ pre, pre <+: lines → ∀ line, Addressed kernel (serve kernel .new pre) line) ↔
      ∀ pre line, pre ++ [line] <+: lines → Fresh kernel (serve kernel .new pre) line := by
  simp only [addressed_iff]
  exact nodup_run_iff kernel lines

end Runs

section Readded

/-- A VM whose tap comes back as another interface. -/
def readdedLines : List String := [addLine 11 7 0, addLine 12 7 0]

theorem readded_twice : ¬ ∀ pre, pre <+: readdedLines → ∀ line,
    Addressed Attached.twoPlaces (serve Attached.twoPlaces .new pre) line := by
  intro h
  have hone := addressed_iff.1 (h readdedLines (List.prefix_refl _))
  have htwice : (serve Attached.twoPlaces .new readdedLines).handles = [7, 7] := by
    decide +kernel
  rw [htwice] at hone
  exact absurd hone (by decide)

end Readded

end Owner

end Assayist
