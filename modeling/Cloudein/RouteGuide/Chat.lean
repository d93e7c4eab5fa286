import Cloudein.Lib.Run
import Cloudein.Lib.Earlier

/-!
# The note exchange of `RouteChat`

Every stream has a thread that reads its notes.  For a note read it takes `mu_`, writes to the stream the notes
received so far at the same location, and appends the note to `received_notes_`; this section is one step here.  Reads
and sections of any number of streams interleave.  Search and append stand in one section, so the answers are decided
by the order in which the sections run.
-/

namespace Cloudein.RouteGuide

open Earlier

structure Point where
  latitude : Int32
  longitude : Int32
deriving DecidableEq, Repr

structure RouteNote where
  locationField : Option Point
  message : String
deriving DecidableEq, Repr

/-- `location()`, which is the default point when the field is not set. -/
def RouteNote.location (n : RouteNote) : Point := n.locationField.getD ⟨0, 0⟩

/-- The test in the loop of `RouteChat`. -/
def sameLocation (n note : RouteNote) : Bool :=
  n.location.latitude == note.location.latitude && n.location.longitude == note.location.longitude

/-- A call of `stream->Write`, with the position of the note in `received_notes_` and the position that the note it
answers takes there. -/
structure NoteWrite (ι : Type) where
  stream : ι
  note : RouteNote
  source : Nat
  answers : Nat
deriving DecidableEq

/-- Where the thread of a stream stands. -/
inductive ChatThread where
  | reading
  | holding (note : RouteNote)
  | returned

/-- The note that is read and not yet received. -/
def ChatThread.held : ChatThread → List RouteNote
  | .holding note => [note]
  | _ => []

structure Chat (ι : Type) where
  receivedNotes : List RouteNote
  thread : ι → ChatThread
  written : List (NoteWrite ι)

inductive ChatEvent (ι : Type) where
  /-- `Read` returns true with a note. -/
  | read (i : ι) (note : RouteNote)
  /-- `Read` returns false, and `RouteChat` returns. -/
  | readEnd (i : ι)
  /-- The section under `mu_`. -/
  | locked (i : ι)

variable {ι : Type}

/-- The loop of `RouteChat` over the notes from a position on. -/
def writeMatching (i : ι) (note : RouteNote) (answers : Nat) :
    List RouteNote → Nat → List (NoteWrite ι) → List (NoteWrite ι)
  | [], _, log => log
  | n :: ns, pos, log =>
    if sameLocation n note then writeMatching i note answers ns (pos + 1) (log ++ [⟨i, n, pos, answers⟩])
    else writeMatching i note answers ns (pos + 1) log

/-! ### The answers to a note -/

/-- The writes that the `k`-th note received is answered with: the earlier notes at its location, on its stream. -/
def answersTo (served : List (ι × RouteNote)) (k : Nat) : List (NoteWrite ι) :=
  match served[k]? with
  | none => []
  | some (i, _) => (earlier (fun p q => sameLocation p.2 q.2) served k).map fun p => ⟨i, p.1.2, p.2, k⟩

private theorem writeMatching_eq (i : ι) (note : RouteNote) (answers : Nat) (ns : List RouteNote) (pos : Nat)
    (log : List (NoteWrite ι)) : writeMatching i note answers ns pos log =
      log ++ ((ns.zipIdx pos).filter fun p => sameLocation p.1 note).map fun p => ⟨i, p.1, p.2, answers⟩ := by
  induction ns generalizing pos log with
  | nil => simp [writeMatching]
  | cons n ns ih =>
    rw [writeMatching, List.zipIdx_cons]
    split
    · rename_i hsame
      rw [ih, List.filter_cons_of_pos (by simpa using hsame)]
      simp
    · rename_i hdiff
      rw [ih, List.filter_cons_of_neg (by simpa using hdiff)]

private theorem answersTo_append {served : List (ι × RouteNote)} {k : Nat} (hk : k < served.length)
    (p : ι × RouteNote) :
    answersTo (served ++ [p]) k = answersTo served k := by
  unfold answersTo
  rw [List.getElem?_append_left hk, earlier_append hk]

private theorem answersTo_concat (served : List (ι × RouteNote)) (i : ι) (note : RouteNote) :
    answersTo (served ++ [(i, note)]) served.length =
      ((served.map Prod.snd).zipIdx.filter fun p => sameLocation p.1 note).map fun p =>
        ⟨i, p.1, p.2, served.length⟩ := by
  unfold answersTo
  rw [List.getElem?_concat_length]
  simp only [earlier_concat]
  rw [List.zipIdx_map, List.filter_map, List.map_map]
  rfl

theorem answersTo_key {served : List (ι × RouteNote)} (k : Nat) : ∀ w ∈ answersTo served k, w.answers = k := by
  unfold answersTo
  cases served[k]? with
  | none => simp
  | some p =>
    intro w hw
    obtain ⟨q, -, rfl⟩ := List.mem_map.1 hw
    rfl

theorem answersTo_source {served : List (ι × RouteNote)} {j k : Nat} {i i' : ι} {n n' : RouteNote}
    (hj : served[j]? = some (i, n)) (hk : served[k]? = some (i', n')) :
    (answersTo served k).filter (fun w => w.source = j) =
      if j < k ∧ sameLocation n n' then [⟨i', n, j, k⟩] else [] := by
  unfold answersTo
  rw [hk]
  have hfilter := earlier_filter (fun p q : ι × RouteNote => sameLocation p.2 q.2) hj hk
  have hmap : (fun w : NoteWrite ι => decide (w.source = j)) ∘
      (fun p : (ι × RouteNote) × Nat => ⟨i', p.1.2, p.2, k⟩) =
      fun p => decide (p.2 = j) := rfl
  rw [List.filter_map, hmap, hfilter]
  split <;> rfl

private theorem sameLocation_comm (n n' : RouteNote) : sameLocation n n' = sameLocation n' n := by
  unfold sameLocation
  rw [Bool.beq_comm, Bool.beq_comm (a := n.location.longitude)]

/-! ### The server -/

namespace Chat

def init : Chat ι := ⟨[], fun _ => .reading, []⟩

variable [DecidableEq ι]

def setThread (s : Chat ι) (i : ι) (c : ChatThread) : Chat ι :=
  { s with thread := fun j => if j = i then c else s.thread j }

/-- What `RouteChat` does for a note under the lock. -/
def exchange (s : Chat ι) (i : ι) (note : RouteNote) : Chat ι :=
  { s with
    written := writeMatching i note s.receivedNotes.length s.receivedNotes 0 s.written
    receivedNotes := s.receivedNotes ++ [note] }

def step (s : Chat ι) : ChatEvent ι → Except Empty (Chat ι)
  | .read i note => .ok (s.setThread i (.holding note))
  | .readEnd i => .ok (s.setThread i .returned)
  | .locked i => match s.thread i with
    | .holding note => .ok ((s.exchange i note).setThread i .reading)
    | _ => .ok s

def Enabled (s : Chat ι) : ChatEvent ι → Prop
  | .read i _ => s.thread i = .reading
  | .readEnd i => s.thread i = .reading
  | .locked i => ∃ note, s.thread i = .holding note

end Chat

variable [DecidableEq ι]

def chatSystem : Runs.System (Chat ι) (ChatEvent ι) Empty := ⟨Chat.Enabled, Chat.step⟩

/-! ### What a run reads and in which order it takes the lock -/

def ChatEvent.readOf (i : ι) : ChatEvent ι → Option RouteNote
  | .read j note => if j = i then some note else none
  | _ => none

/-- The notes that a stream reads. -/
def readsOf (i : ι) (es : List (ChatEvent ι)) : List RouteNote := es.filterMap (·.readOf i)

def ChatEvent.locker : ChatEvent ι → Option ι
  | .locked i => some i
  | _ => none

/-- The streams in the order in which they take the lock. -/
def lockOrder (es : List (ChatEvent ι)) : List ι := es.filterMap ChatEvent.locker

/-- The notes of a stream among those served. -/
def notesOf (i : ι) (served : List (ι × RouteNote)) : List RouteNote :=
  (served.filter fun p => p.1 = i).map Prod.snd

/-! ### Each event keeps the correspondence -/

private theorem readsOf_concat (i : ι) (es : List (ChatEvent ι)) (e : ChatEvent ι) :
    readsOf i (es ++ [e]) = readsOf i es ++ (e.readOf i).toList := by
  unfold readsOf
  rw [List.filterMap_append]
  cases h : e.readOf i <;> simp [h]

omit [DecidableEq ι] in
private theorem lockOrder_concat (es : List (ChatEvent ι)) (e : ChatEvent ι) :
    lockOrder (es ++ [e]) = lockOrder es ++ e.locker.toList := by
  unfold lockOrder
  rw [List.filterMap_append]
  cases h : e.locker <;> simp [h]

theorem notesOf_concat (i : ι) (served : List (ι × RouteNote)) (j : ι) (note : RouteNote) :
    notesOf i (served ++ [(j, note)]) = notesOf i served ++ if j = i then [note] else [] := by
  unfold notesOf
  rw [List.filter_append, List.map_append]
  by_cases hij : j = i <;> simp [hij]

/-- The notes received are those read, in the order of the sections, and every one has been answered. -/
structure Served (es : List (ChatEvent ι)) (served : List (ι × RouteNote)) (s : Chat ι) : Prop where
  order : served.map Prod.fst = lockOrder es
  notes : served.map Prod.snd = s.receivedNotes
  reads : ∀ i, notesOf i served ++ (s.thread i).held = readsOf i es
  answers : s.written = (List.range served.length).flatMap (answersTo served)

namespace Served

variable {es : List (ChatEvent ι)} {served : List (ι × RouteNote)} {s : Chat ι}

theorem init : Served ([] : List (ChatEvent ι)) [] Chat.init :=
  ⟨rfl, rfl, fun _ => rfl, rfl⟩

private theorem setThread_held (s : Chat ι) (i j : ι) (c : ChatThread) :
    ((s.setThread i c).thread j).held = if j = i then c.held else (s.thread j).held := by
  unfold Chat.setThread
  split <;> simp [*]

/-- An event of a reading thread without the lock: what the thread holds afterwards is what it read. -/
theorem readDone (h : Served es served s) {i : ι} (hi : s.thread i = .reading) {e : ChatEvent ι} {c : ChatThread}
    (hlock : e.locker = none) (hread : ∀ j, (e.readOf j).toList = if j = i then c.held else []) :
    Served (es ++ [e]) served (s.setThread i c) := by
  refine ⟨?_, h.notes, fun j => ?_, h.answers⟩
  · rw [lockOrder_concat, hlock, h.order]
    exact (List.append_nil _).symm
  · rw [setThread_held, readsOf_concat, ← h.reads j, hread]
    by_cases hij : j = i
    · subst hij
      simp [hi, ChatThread.held]
    · simp [hij]

theorem read (h : Served es served s) {i : ι} (hi : s.thread i = .reading) (note : RouteNote) :
    Served (es ++ [.read i note]) served (s.setThread i (.holding note)) := by
  refine h.readDone hi rfl fun j => ?_
  by_cases hij : j = i
  · simp [ChatEvent.readOf, ChatThread.held, hij]
  · simp [ChatEvent.readOf, hij, Ne.symm hij]

theorem readEnd (h : Served es served s) {i : ι} (hi : s.thread i = .reading) :
    Served (es ++ [.readEnd i]) served (s.setThread i .returned) :=
  h.readDone hi rfl fun j => by simp [ChatEvent.readOf, ChatThread.held]

/-- The section answers the note with the ones received before it, and receives it. -/
theorem locked (h : Served es served s) {i : ι} {note : RouteNote} (hi : s.thread i = .holding note) :
    Served (es ++ [.locked i]) (served ++ [(i, note)]) ((s.exchange i note).setThread i .reading) := by
  have hlen : s.receivedNotes.length = served.length := by
    rw [← h.notes, List.length_map]
  refine ⟨?_, ?_, fun j => ?_, ?_⟩
  · rw [lockOrder_concat, ← h.order]
    simp [ChatEvent.locker]
  · rw [List.map_append, h.notes]
    rfl
  · rw [setThread_held, notesOf_concat, readsOf_concat, ← h.reads j]
    by_cases hij : j = i
    · subst hij
      simp [hi, ChatThread.held, ChatEvent.readOf]
    · simp [hij, Ne.symm hij, ChatEvent.readOf, Chat.exchange]
  · have hold : ∀ k ∈ List.range served.length, answersTo (served ++ [(i, note)]) k = answersTo served k := by
      intro k hk
      exact answersTo_append (List.mem_range.1 hk) _
    show writeMatching i note s.receivedNotes.length s.receivedNotes 0 s.written = _
    rw [writeMatching_eq, hlen, ← h.notes, List.length_append, List.length_singleton, List.range_succ,
      List.flatMap_append, List.flatMap_singleton, answersTo_concat, h.answers, List.flatMap_def, List.flatMap_def,
      List.map_congr_left hold]

end Served

theorem served_step {es : List (ChatEvent ι)} {s t : Chat ι} {e : ChatEvent ι}
    (h : ∃ served, Served es served s) (he : s.Enabled e) (ht : s.step e = .ok t) :
    ∃ served, Served (es ++ [e]) served t := by
  obtain ⟨served, h⟩ := h
  cases e with
  | read i note =>
    cases ht
    exact ⟨served, h.read he note⟩
  | readEnd i =>
    cases ht
    exact ⟨served, h.readEnd he⟩
  | locked i =>
    obtain ⟨note, hi⟩ := he
    simp only [Chat.step, hi, Except.ok.injEq] at ht
    exact ⟨_, ht ▸ h.locked hi⟩

/-! ### Every run -/

/-- After every run the notes received are those read, merged in the order of the sections.  The writes that answer a
note are the notes received before it at its location, in order, on its stream; so of two notes at one location
exactly one answers the other, once, and of two at different locations none does. -/
theorem routeChat_exact {es : List (ChatEvent ι)} (hal : chatSystem.Allowed Chat.init es) {t : Chat ι}
    (ht : chatSystem.exec Chat.init es = .ok t) :
    ∃ served : List (ι × RouteNote),
      served.map Prod.fst = lockOrder es ∧ served.map Prod.snd = t.receivedNotes ∧
      (∀ i, notesOf i served ++ (t.thread i).held = readsOf i es) ∧
      (∀ k, t.written.filter (fun w => w.answers = k) = answersTo served k) ∧
      (∀ j k i i' n n', served[j]? = some (i, n) → served[k]? = some (i', n') →
        t.written.filter (fun w => w.source = j ∧ w.answers = k) =
          if j < k ∧ sameLocation n n' then [⟨i', n, j, k⟩] else []) ∧
      ∀ j k i i' n n', served[j]? = some (i, n) → served[k]? = some (i', n') → j ≠ k → sameLocation n n' →
        (t.written.filter fun w => w.source = j ∧ w.answers = k).length +
          (t.written.filter fun w => w.source = k ∧ w.answers = j).length = 1 := by
  obtain ⟨served, h⟩ := Runs.System.exec_hist (I := fun es s => ∃ served, Served es served s) ⟨[], Served.init⟩
    (fun _ _ _ _ h he ht => served_step h he ht) hal ht
  have hanswers : ∀ k, t.written.filter (fun w => w.answers = k) = answersTo served k := by
    intro k
    rw [h.answers, journal_filter answersTo_key]
    split
    · rfl
    · rename_i hk
      unfold answersTo
      rw [List.getElem?_eq_none (by omega)]
  -- Among the answers to `k` the note `j` is the source of one at most.
  have hpair : ∀ j k i i' n n', served[j]? = some (i, n) → served[k]? = some (i', n') →
      t.written.filter (fun w => w.source = j ∧ w.answers = k) =
        if j < k ∧ sameLocation n n' then [⟨i', n, j, k⟩] else [] := by
    intro j k i i' n n' hj hk
    rw [← answersTo_source hj hk, ← hanswers k, List.filter_filter]
    simp
  refine ⟨served, h.order, h.notes, h.reads, hanswers, hpair, fun j k i i' n n' hj hk hjk hsame => ?_⟩
  rw [hpair j k i i' n n' hj hk, hpair k j i' i n' n hk hj, sameLocation_comm n' n]
  -- The later of the two is the one that is answered.
  rcases Nat.lt_or_gt_of_ne hjk with hlt | hlt
  · simp [hlt, hsame, Nat.lt_asymm hlt]
  · simp [hlt, hsame, Nat.lt_asymm hlt]

/-- Two streams read a note each before one of them takes the lock, and go on. -/
def crossedStreams : List (ChatEvent Nat) :=
  [.read 0 ⟨some ⟨1, 2⟩, "a"⟩, .read 1 ⟨some ⟨1, 2⟩, "b"⟩, .locked 1, .locked 0, .read 1 ⟨none, "c"⟩, .locked 1,
    .read 0 ⟨some ⟨1, 2⟩, "d"⟩, .locked 0, .readEnd 0]

theorem routeChat_exact_crossedStreams :
    ∃ t served, chatSystem.exec Chat.init crossedStreams = .ok t ∧ served.map Prod.fst = [1, 0, 1, 0] ∧
      served.map Prod.snd = t.receivedNotes ∧
      ∀ k, t.written.filter (fun w => w.answers = k) = answersTo served k := by
  have hal : chatSystem.Allowed Chat.init crossedStreams := by
    simp [Runs.System.Allowed, Runs.System.Along, crossedStreams, chatSystem, Chat.Enabled, Chat.step, Chat.init,
      Chat.setThread, Chat.exchange]
  obtain ⟨t, ht⟩ : ∃ t, chatSystem.exec Chat.init crossedStreams = .ok t := ⟨_, rfl⟩
  obtain ⟨served, horder, hnotes, -, hanswers, -⟩ := routeChat_exact hal ht
  exact ⟨t, served, ht, horder, hnotes, hanswers⟩

end Cloudein.RouteGuide
