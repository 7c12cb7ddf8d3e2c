-- Which boot files the registry offers: the path that a task's profile writes leads to something that
-- stands. Without a slash it is an entry of the folder of profiles, and with one it may be anywhere.
import NetBoot.Proofs.Registry.History
import NetBoot.Proofs.Registry.Verdict
import NetBoot.Proofs.Storage.Walks

namespace NetBoot.Registry

open Volume

variable {r : Registry} {id : NodeId} {name : String}

/-- A boot file is offered if it is that of the first task, and its profile is there. -/
theorem bootProfile_eq_ok :
    r.bootProfile id = .ok name ↔
      ∃ task, r.FirstTask id task ∧ name = profileFile task.profile ∧
        r.hasProfile task.profile = true := by
  refine ⟨?_, ?_⟩
  · intro h
    by_cases htask : ∃ task, r.FirstTask id task
    · obtain ⟨task, htask⟩ := htask
      rw [bootProfile_of_firstTask htask] at h
      split at h
      · next hprofile =>
        cases h
        exact ⟨task, htask, rfl, hprofile⟩
      · cases h
    · obtain ⟨e, he⟩ := bootProfile_of_no_task (not_exists.mp htask)
      rw [he] at h
      cases h
  · rintro ⟨task, htask, rfl, hprofile⟩
    rw [bootProfile_of_firstTask htask, if_pos hprofile]

theorem isPlain_profilesPath (hhome : ∀ step ∈ r.home, IsPlain step) :
    ∀ step ∈ r.profilesPath, IsPlain step := by
  rw [profilesPath, List.forall_mem_append, List.forall_mem_singleton]
  exact ⟨hhome, by decide +kernel⟩

/-- The path of a boot file leads from the folder of profiles, or from the root, to something that
stands. -/
theorem hasProfile_iff (htree : r.volume.IsTree) (hhome : ∀ step ∈ r.home, IsPlain step)
    (profile : String) :
    r.hasProfile profile = true ↔
      (utf8 (written r.profilesPath (profileFile profile))).length ≤ pathLimit ∧
        ∃ place, r.volume.Leads (origin r.profilesPath (profileFile profile))
            (steps (profileFile profile)) place ∧ r.volume.Stands place := by
  rw [hasProfile, holds_iff]
  simp only [htree.leads_written (isPlain_profilesPath hhome)]

/-- A file name without slashes leads to the entry of this name. -/
theorem place_of_no_slash {profile : String} {place : Path}
    (hslash : '/' ∉ (profileFile profile).toList)
    (h : r.volume.Leads (origin r.profilesPath (profileFile profile)) (steps (profileFile profile))
      place) :
    IsPlain (profileFile profile) ∧ place = r.profilesPath ++ [profileFile profile] := by
  have horigin : origin r.profilesPath (profileFile profile) = r.profilesPath :=
    if_neg fun hhead => hslash (List.mem_of_head? hhead)
  rw [horigin, steps_eq_self hslash] at h
  obtain ⟨_, hempty, hdot, hdots⟩ := append_ipxe_ne profile
  obtain ⟨_, _, hstep, _⟩ := leads_cons.mp h
  have hdown : IsDown (profileFile profile) := hstep.isDown ⟨hempty, hdot⟩ hdots
  exact ⟨⟨hdown, hslash⟩, h.eq_append (by simpa using hdown)⟩

/-- A boot file is offered exactly if it is that of the machine's first task and its path leads to
something that stands. Without a slash in its name it is an entry of the folder of profiles, and
without a slash at the front and steps up it lies below this folder. -/
theorem offered_without_slash_is_in_the_folder (htree : r.volume.IsTree)
    (hhome : ∀ step ∈ r.home, IsPlain step) (id : NodeId) (name : String) :
    let leads := r.volume.Leads (origin r.profilesPath name) (steps name)
    (r.bootProfile id = .ok name ↔
      ∃ task, r.FirstTask id task ∧ name = profileFile task.profile ∧
        (utf8 (written r.profilesPath name)).length ≤ pathLimit ∧
        ∃ place, leads place ∧ r.volume.Stands place) ∧
    (r.bootProfile id = .ok name → ∀ place, leads place →
      ('/' ∉ name.toList → IsPlain name ∧ place = r.profilesPath ++ [name] ∧
        r.volume.get place ≠ none) ∧
      (name.toList.head? ≠ some '/' → ".." ∉ steps name → r.profilesPath <+: place)) := by
  intro leads
  have hoffered : r.bootProfile id = .ok name ↔ _ := bootProfile_eq_ok
  refine ⟨?_, ?_⟩
  · rw [hoffered]
    refine exists_congr fun task => and_congr_right fun _ => and_congr_right ?_
    rintro rfl
    exact hasProfile_iff htree hhome task.profile
  · intro h place hplace
    obtain ⟨task, _, rfl, hprofile⟩ := hoffered.mp h
    obtain ⟨_, other, hother, hstands⟩ := (hasProfile_iff htree hhome task.profile).mp hprofile
    rw [hother.unique hplace] at hstands
    refine ⟨?_, ?_⟩
    · intro hslash
      obtain ⟨hplain, rfl⟩ := place_of_no_slash hslash hplace
      exact ⟨hplain, rfl, hstands.resolve_left (append_name_ne_nil _ _)⟩
    · intro hhead hclimb
      have hbelow := hplace.stays_below hclimb
      rwa [origin, if_neg hhead] at hbelow

/-- The profile of a task without slashes, in the folder of profiles. -/
theorem profile_in_the_folder_is_offered :
    rackRegistry.volume.IsTree ∧ (∀ step ∈ rackRegistry.home, IsPlain step) ∧
      rackRegistry.bootProfile "n1" = .ok "rocky.ipxe" ∧ IsPlain "rocky.ipxe" ∧
      rackRegistry.volume.get (rackRegistry.profilesPath ++ ["rocky.ipxe"]) ≠ none := by
  have htree : rackRegistry.volume.IsTree := by decide
  have hhome : ∀ step ∈ rackRegistry.home, IsPlain step := by decide +kernel
  have hoffered : rackRegistry.bootProfile "n1" = .ok "rocky.ipxe" := by decide +kernel
  obtain ⟨hiff, hplaces⟩ := offered_without_slash_is_in_the_folder htree hhome "n1" "rocky.ipxe"
  obtain ⟨_, _, _, _, place, hplace, _⟩ := hiff.mp hoffered
  obtain ⟨hplain, rfl, hstands⟩ := (hplaces hoffered place hplace).1 (by decide)
  exact ⟨htree, hhome, hoffered, hplain, hstands⟩

/-- A registry whose task writes a profile that climbs out of the folder of profiles. -/
def strayRegistry : Registry where
  home := ["data"]
  volume :=
    ⟨[(["data"], .folder), (["data", "profiles"], .folder),
      (["data", "tasks.txt"], .file (utf8 "n1,../../outside\n")),
      (["outside.ipxe"], .file (utf8 "#!ipxe\n"))]⟩

/-- A boot file is offered that has slashes in its name and leads out of the folder of profiles,
where nothing stands. -/
theorem profile_out_of_the_folder_is_offered :
    strayRegistry.volume.IsTree ∧ (∀ step ∈ strayRegistry.home, IsPlain step) ∧
      strayRegistry.bootProfile "n1" = .ok "../../outside.ipxe" ∧
      ¬ IsPlain "../../outside.ipxe" ∧
      strayRegistry.volume.Leads strayRegistry.profilesPath (steps "../../outside.ipxe")
        ["outside.ipxe"] ∧
      ¬ strayRegistry.profilesPath <+: ["outside.ipxe"] ∧
      ∀ entry, strayRegistry.volume.get (strayRegistry.profilesPath ++ [entry]) = none := by
  have hsteps : steps "../../outside.ipxe" = ["..", "..", "outside.ipxe"] := by decide +kernel
  refine ⟨by decide, by decide +kernel, by decide +kernel, by decide +kernel, ?_, by decide, ?_⟩
  · rw [hsteps]
    exact .goes (by decide) .climb (.goes (by decide) .climb
      (.goes (by decide) (.down (by decide +kernel)) (.arrived _)))
  · intro entry
    simp [strayRegistry, profilesPath, Volume.get, List.lookup_cons]

end NetBoot.Registry
