-- The laws of the lease poller. Whatever pieces the lease file grows in, the poller has told of the
-- leases of the whole file: `CaughtUp` ties how far it has read to the file, and each look keeps it.
import NetBoot.Lease.Poller
import NetBoot.Proofs.Lease.Blocks
import NetBoot.Proofs.Text.Utf8RoundTrip

namespace NetBoot

variable {σ : Type} {now : Instant}

/-! ## The last brace of a text -/

namespace LeaseTail

theorem cutAfterBrace?_eq_none {s : List Char} (h : cutAfterBrace? s = none) : '}' ∉ s := by
  induction s with
  | nil => exact List.not_mem_nil
  | cons c rest ih =>
    unfold cutAfterBrace? at h
    cases hrest : cutAfterBrace? rest with
    | some cut =>
      rw [hrest] at h
      cases h
    | none =>
      simp only [hrest, ite_eq_right_iff, reduceCtorEq, imp_false] at h
      intro hm
      rcases List.mem_cons.mp hm with hc | hm
      · exact h hc.symm
      · exact ih hrest hm

/-- The cut is after the last brace. -/
theorem cutAfterBrace?_eq_some {s whole rest : List Char}
    (h : cutAfterBrace? s = some (whole, rest)) :
    s = whole ++ rest ∧ (∃ u, whole = u ++ ['}']) ∧ '}' ∉ rest := by
  induction s generalizing whole with
  | nil => cases h
  | cons c s ih =>
    unfold cutAfterBrace? at h
    cases hcut : cutAfterBrace? s with
    | some cut =>
      obtain ⟨front, others⟩ := cut
      rw [hcut] at h
      cases h
      obtain ⟨hs, hend, hrest⟩ := ih hcut
      obtain ⟨u, hu⟩ := hend
      exact ⟨congrArg (c :: ·) hs, ⟨c :: u, congrArg (c :: ·) hu⟩, hrest⟩
    | none =>
      simp only [hcut, Option.ite_none_right_eq_some, Option.some.injEq, Prod.mk.injEq] at h
      obtain ⟨hc, hwhole, hrest⟩ := h
      subst hc hwhole hrest
      exact ⟨rfl, ⟨[], rfl⟩, cutAfterBrace?_eq_none hcut⟩

/-! ## What has been read -/

/-- The file has been read to its end: the leases up to its last brace have been told, and what
stands after that brace is kept. -/
structure CaughtUp (now : Instant) (file : Bytes) (told : List Announcement) (t : LeaseTail) :
    Prop where
  offset : t.offset = file.length
  pending : '}' ∉ t.pending
  read : ∃ whole, Utf8.decodeLossy file = whole ++ t.pending ∧ Lease.EndsAtBrace whole ∧
    told = (Lease.ofChars whole now).map Lease.announcement

/-- The file has been read to its end: `whole` is its text up to its last brace, and what stands
after that brace is kept. -/
structure ReadUpTo (file : Bytes) (whole : List Char) (t : LeaseTail) : Prop where
  offset : t.offset = file.length
  pending : '}' ∉ t.pending
  text : Utf8.decodeLossy file = whole ++ t.pending
  ends : Lease.EndsAtBrace whole

theorem readUpTo_start : ReadUpTo [] [] {} := ⟨rfl, List.not_mem_nil, rfl, Or.inl rfl⟩

/-- A file that grew is read on from where it ended before. -/
theorem resume_append {file : Bytes} {t : LeaseTail} (h : t.offset = file.length) (more : Bytes) :
    t.resume (file ++ more).length = t := by
  refine if_neg ?_
  rw [h, List.length_append]
  omega

/-- Taking in the bytes that were appended reads on to the last brace in them, and gives the leases
of the text in between. -/
theorem ReadUpTo.take {file appended : Bytes} {whole : List Char} {t : LeaseTail}
    (h : t.ReadUpTo file whole) (now : Instant) (hascii : Utf8.IsAscii (file ++ appended)) :
    ∃ next, (t.take appended now).1.ReadUpTo (file ++ appended) (whole ++ next) ∧
      (t.take appended now).2 = Lease.ofChars next now := by
  have htext := Utf8.decodeLossy_append (Utf8.isAscii_append.mp hascii).1 appended
  rw [h.text, List.append_assoc] at htext
  have hoffset : t.offset + appended.length = (file ++ appended).length := by
    rw [List.length_append, h.offset]
  unfold LeaseTail.take
  by_cases hnone : appended = []
  · rw [if_pos hnone, hnone, List.append_nil]
    refine ⟨[], ?_, rfl⟩
    rwa [List.append_nil]
  rw [if_neg hnone]
  cases hcut : cutAfterBrace? (t.pending ++ Utf8.decodeLossy appended) with
  | none =>
    refine ⟨[], ⟨hoffset, cutAfterBrace?_eq_none hcut, ?_, ?_⟩, rfl⟩
    · rw [htext, List.append_nil]
    · rw [List.append_nil]
      exact h.ends
  | some cut =>
    obtain ⟨next, rest⟩ := cut
    obtain ⟨hpending, ⟨u, hu⟩, hrest⟩ := cutAfterBrace?_eq_some hcut
    refine ⟨next, ⟨hoffset, hrest, ?_, ?_⟩, rfl⟩
    · rw [htext, hpending, List.append_assoc]
    · exact Or.inr ⟨whole ++ u, by rw [hu, List.append_assoc]⟩

theorem caughtUp_start : CaughtUp now [] [] {} :=
  ⟨rfl, List.not_mem_nil, [], rfl, Or.inl rfl, rfl⟩

variable {file appended : Bytes} {told : List Announcement} {t : LeaseTail}

/-- A poller that has caught up has told of the leases of the whole file: what it keeps holds no
brace, so there is no lease in it. -/
theorem CaughtUp.told_eq (h : t.CaughtUp now file told)
    (halone : Lease.BracesAlone (Utf8.decodeLossy file)) :
    told = (Lease.ofChars (Utf8.decodeLossy file) now).map Lease.announcement := by
  obtain ⟨whole, htext, hend, htold⟩ := h.read
  rw [htext] at halone ⊢
  rw [Lease.ofChars_append now hend halone, Lease.ofChars_eq_nil now h.pending,
    List.append_nil, htold]

/-- Taking in the bytes that were appended catches up with the longer file. -/
theorem CaughtUp.take (h : t.CaughtUp now file told) (hascii : Utf8.IsAscii (file ++ appended))
    (halone : Lease.BracesAlone (Utf8.decodeLossy (file ++ appended))) :
    (t.take appended now).1.CaughtUp now (file ++ appended)
      (told ++ (t.take appended now).2.map Lease.announcement) := by
  obtain ⟨whole, htext, hend, htold⟩ := h.read
  have hread : t.ReadUpTo file whole := ⟨h.offset, h.pending, htext, hend⟩
  obtain ⟨next, hnext, hleases⟩ := hread.take now hascii
  rw [hnext.text] at halone
  refine ⟨hnext.offset, hnext.pending, whole ++ next, hnext.text, hnext.ends, ?_⟩
  rw [Lease.ofChars_append now hend halone.of_append, List.map_append, htold, hleases]

end LeaseTail

/-! ## One look -/

/-- The look finds a file that is shorter than what was read, so the poller starts over. -/
def Look.restarts (l : Look σ) : Bool :=
  match l.source with
  | .content bytes => bytes.length < l.before.tail.offset
  | _ => false

/-- What has been told since the poller last started over, after one more look. -/
def Look.toldAfter (told : List Announcement) (l : Look σ) : List Announcement :=
  (if l.restarts then [] else told) ++ l.calls.map Call.announcement

/-- What was told since the poller last started over, or since its first look. -/
def Look.sinceRestart (looks : List (Look σ)) : List Announcement :=
  looks.foldl Look.toldAfter []

/-- A lease file as the server writes it: in ASCII, with its braces on lines of their own. -/
def Orderly (file : Bytes) : Prop :=
  Utf8.IsAscii file ∧ Lease.BracesAlone (Utf8.decodeLossy file)

instance : DecidablePred Orderly := fun _ => inferInstanceAs (Decidable (_ ∧ _))

/-- What a look can find after the content `last` was read, and the content that has been read
then: no file, more of the same file, or a shorter one. -/
inductive LeaseSource.Next (last : Bytes) : LeaseSource → Bytes → Prop
  | missing : Next last .missing last
  | grown (more : Bytes) (h : Orderly (last ++ more)) :
    Next last (.content (last ++ more)) (last ++ more)
  | rewritten (file : Bytes) (hshorter : file.length < last.length) (h : Orderly file) :
    Next last (.content file) file

/-- A file that was found has been read, and has its braces alone. -/
theorem LeaseSource.Next.content {last file bytes : Bytes} {source : LeaseSource}
    (h : source.Next last file) (hsource : source = .content bytes) :
    file = bytes ∧ Lease.BracesAlone (Utf8.decodeLossy file) := by
  cases h with
  | missing => cases hsource
  | grown more h =>
    cases hsource
    exact ⟨rfl, h.2⟩
  | rewritten file _ h =>
    cases hsource
    exact ⟨rfl, h.2⟩

namespace Poller

variable (hear : Listener σ) (p : Poller σ)

/-- All announcements are made, whatever is answered. -/
theorem tell_announcements (state : σ) (l : List Announcement) :
    (Listener.tell hear state l).2.map Call.announcement = l := by
  induction l generalizing state with
  | nil => rfl
  | cons a rest ih => exact congrArg (a :: ·) (ih _)

theorem look_source (now : Instant) (source : LeaseSource) :
    (p.look hear now source).source = source := by
  unfold look
  split <;> rfl

theorem look_missing : p.look hear now .missing = ⟨.missing, p, p, .ok [], []⟩ := rfl

/-- A look at a file takes in what is new in it and tells of the leases. -/
theorem look_content (now : Instant) (bytes : Bytes) :
    let t := p.tail.resume bytes.length
    let taken := t.take (bytes.drop t.offset) now
    let look := p.look hear now (.content bytes)
    look.source = .content bytes ∧ look.before = p ∧ look.after.tail = taken.1 ∧
      look.found = .ok taken.2 ∧
      look.calls.map Call.announcement = taken.2.map Lease.announcement :=
  ⟨rfl, rfl, rfl, rfl, tell_announcements hear _ _⟩

/-- A look reports as many leases as it made calls. -/
theorem look_report {last file : Bytes} {source : LeaseSource} (h : source.Next last file) :
    (p.look hear now source).report = .ok (p.look hear now source).calls.length := by
  have hcontent : ∀ bytes, (p.look hear now (.content bytes)).report =
      .ok (p.look hear now (.content bytes)).calls.length := by
    intro bytes
    obtain ⟨_, _, _, hfound, hcalls⟩ := look_content hear p now bytes
    have hlength := congrArg List.length hcalls
    rw [List.length_map, List.length_map] at hlength
    unfold Look.report
    rw [hfound, hlength]
    rfl
  cases h with
  | missing => rfl
  | grown more => exact hcontent _
  | rewritten => exact hcontent _

/-- Each look keeps the poller caught up. -/
theorem look_caughtUp {last file : Bytes} {source : LeaseSource} {told : List Announcement}
    (h : source.Next last file) (hp : p.tail.CaughtUp now last told) :
    (p.look hear now source).after.tail.CaughtUp now file
      ((p.look hear now source).toldAfter told) := by
  cases h with
  | missing =>
    rw [look_missing]
    simpa [Look.toldAfter, Look.restarts] using hp
  | grown more h =>
    obtain ⟨hsource, hbefore, htail, _, hcalls⟩ := look_content hear p now (last ++ more)
    rw [LeaseTail.resume_append hp.offset, hp.offset, List.drop_left] at htail hcalls
    have hgoes : (p.look hear now (.content (last ++ more))).restarts = false := by
      unfold Look.restarts
      rw [hsource, hbefore]
      refine decide_eq_false ?_
      rw [hp.offset, List.length_append]
      omega
    unfold Look.toldAfter
    rw [hgoes, htail, hcalls]
    exact hp.take h.1 h.2
  | rewritten file hshorter h =>
    obtain ⟨hsource, hbefore, htail, _, hcalls⟩ := look_content hear p now file
    have hshort : file.length < p.tail.offset := by rwa [hp.offset]
    have hresume : p.tail.resume file.length = {} := if_pos hshort
    rw [hresume, List.drop_zero] at htail hcalls
    have hrestarts : (p.look hear now (.content file)).restarts = true := by
      unfold Look.restarts
      rw [hsource, hbefore]
      exact decide_eq_true hshort
    unfold Look.toldAfter
    rw [hrestarts, htail, hcalls]
    exact LeaseTail.caughtUp_start.take h.1 h.2

end Poller

/-! ## A run of looks -/

/-- What a run of looks can find after the content `last` was read. -/
inductive FileHistory : Bytes → List LeaseSource → Prop
  | nil (last : Bytes) : FileHistory last []
  | cons {last file : Bytes} {source : LeaseSource} {rest : List LeaseSource}
    (next : source.Next last file) (later : FileHistory file rest) :
    FileHistory last (source :: rest)

/-- Before each look of a run, the poller has caught up with what was there before. -/
theorem Poller.run_caughtUp {hear : Listener σ} {last : Bytes} {sources : List LeaseSource}
    (hfile : FileHistory last sources) {p : Poller σ} {told : List Announcement}
    (hp : p.tail.CaughtUp now last told) {done later : List (Look σ)} {look : Look σ}
    (hrun : p.run hear now sources = done ++ look :: later) :
    ∃ q source before file, look = Poller.look hear now q source ∧ source.Next before file ∧
      q.tail.CaughtUp now before (done.foldl Look.toldAfter told) := by
  induction hfile generalizing p told done with
  | nil => exact absurd hrun (by simp [Poller.run])
  | @cons last file source rest next _ ih =>
    unfold Poller.run at hrun
    cases done with
    | nil =>
      obtain ⟨hlook, _⟩ := List.cons.inj hrun
      exact ⟨p, source, last, file, hlook.symm, next, hp⟩
    | cons first done =>
      obtain ⟨rfl, hrest⟩ := List.cons.inj hrun
      exact ih (Poller.look_caughtUp hear p next hp) hrest

/-- Reading the lease file in pieces finds what reading it at once finds. After each look at a file,
the poller has told of the leases of the whole file, in order, since it last started over; it has
told of as many as it reports, whatever was answered; and a look that finds no file changes
nothing. -/
theorem polling_reads_the_whole_file {hear : Listener σ} {known : σ} {sources : List LeaseSource}
    (hfile : FileHistory [] sources) {done later : List (Look σ)} {look : Look σ}
    (hrun : Poller.run hear now ⟨{}, known⟩ sources = done ++ look :: later) :
    look.report = .ok look.calls.length ∧
    (look.source = .missing → look.after = look.before ∧ look.calls = []) ∧
    ∀ bytes, look.source = .content bytes →
      Look.sinceRestart (done ++ [look]) =
        (Lease.ofText (lossy bytes) now).map Lease.announcement := by
  obtain ⟨p, source, before, file, rfl, hnext, hbefore⟩ :=
    Poller.run_caughtUp hfile LeaseTail.caughtUp_start hrun
  have hsource : (p.look hear now source).source = source := Poller.look_source hear p now source
  refine ⟨Poller.look_report hear p hnext, ?_, ?_⟩
  · intro hmissing
    rw [hsource] at hmissing
    rw [hmissing, Poller.look_missing]
    exact ⟨rfl, rfl⟩
  · intro bytes hbytes
    rw [hsource] at hbytes
    obtain ⟨hread, halone⟩ := hnext.content hbytes
    have hafter := Poller.look_caughtUp hear p hnext hbefore
    unfold Look.sinceRestart Lease.ofText lossy
    rw [List.foldl_append, List.foldl_cons, List.foldl_nil, String.toList_ofList, ← hread]
    exact hafter.told_eq halone

/-- A lease file up to the middle of its second block. -/
def firstPart : Bytes :=
  utf8 "lease 10.1.1.10 \x7b\nends never;\nhardware ethernet 0:1:2:3:4:a;\n\x7d\nlease 10.1."

def secondPart : Bytes := utf8 "1.11 \x7b\nends never;\nhardware ethernet 0:1:2:3:4:b;\n\x7d\n"

/-- A lease file that appears, is written anew up to the middle of a block, and grows again. -/
def changingFile : List LeaseSource :=
  [.missing, .content (firstPart ++ secondPart), .content firstPart,
    .content (firstPart ++ secondPart)]

/-- A listener that counts what it hears, and fails. -/
def failing : Listener Nat := fun n _ => (n + 1, .error (.unavailable "registry down"))

def changingLooks : List (Look Nat) := Poller.run failing ⟨0, 0⟩ ⟨{}, 0⟩ changingFile

theorem polling_a_changing_file :
    FileHistory [] changingFile ∧
    ∃ done look, changingLooks = done ++ look :: [] ∧
      look.report = .ok look.calls.length ∧
      Look.sinceRestart (done ++ [look]) =
        [⟨⟨10, 1, 1, 10⟩, "00:01:02:03:04:0a"⟩, ⟨⟨10, 1, 1, 11⟩, "00:01:02:03:04:0b"⟩] := by
  have hpart : Orderly firstPart := by decide +kernel
  have hwhole : Orderly (firstPart ++ secondPart) := by decide +kernel
  have hshorter : firstPart.length < (firstPart ++ secondPart).length := by decide +kernel
  have hfile : FileHistory [] changingFile :=
    .cons .missing (.cons (.grown _ hwhole) (.cons (.rewritten _ hshorter hpart)
      (.cons (.grown _ hwhole) (.nil _))))
  obtain ⟨done, look, hrun, hsource⟩ : ∃ done look, changingLooks = done ++ look :: [] ∧
      look.source = .content (firstPart ++ secondPart) :=
    ⟨[_, _, _], _, rfl, Poller.look_source _ _ _ _⟩
  have hleases : (Lease.ofText (lossy (firstPart ++ secondPart)) ⟨0, 0⟩).map Lease.announcement =
      [⟨⟨10, 1, 1, 10⟩, "00:01:02:03:04:0a"⟩, ⟨⟨10, 1, 1, 11⟩, "00:01:02:03:04:0b"⟩] := by
    decide +kernel
  obtain ⟨hreport, _, htold⟩ := polling_reads_the_whole_file hfile hrun
  exact ⟨hfile, done, look, hrun, hreport, (htold _ hsource).trans hleases⟩

end NetBoot
