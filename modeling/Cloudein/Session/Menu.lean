import Cloudein.Lib.Istream
import Cloudein.Session.Context

/-!
# The menu of the API client

`main` of the API client reads an integer from the console in every round of its loop and issues the request of that
number; zero ends the loop.  Nothing looks at the state of `std::cin`, and a stream that has failed leaves the
variable as it is, so the loop ends exactly when a zero, or a token that is stored as zero, comes before the end of
the input and before a number that is no `int`.
-/

namespace Cloudein

open Iostream

/-- The variable is read before anything was written to it, or a request fails. -/
inductive MenuFault where
  | uninitialized
  | context (e : ContextFault)
deriving DecidableEq, Repr

structure Menu where
  cin : Istream
  /-- `int num;`, `none` when it was never written. -/
  num : Option Int
  sessions : Sessions

/-- The state object of a case of the `switch`. -/
def menuApi : Int → Option Api
  | 1 => some .allocate
  | 2 => some .prepare
  | 3 => some .connect
  | 4 => some .release
  | 5 => some .disconnect
  | 6 => some .timeout
  | 7 => some .prepareFail
  | 8 => some .connectFail
  | 9 => some .rebootFail
  | 10 => some .authFail
  | _ => none

/-- The loop of `main` over context 0, with the clock at each request; `none` when it takes more rounds than `fuel`.
-/
def menuLoop (clock : Nat → Int) : Nat → Menu → Option (Except MenuFault Menu)
  | 0, _ => none
  | fuel + 1, m =>
    let r := extractInt m.cin m.num
    let m := { m with cin := r.1, num := r.2 }
    match m.num with
    | none => some (.error .uninitialized)
    | some n =>
      if n = 0 then some (.ok m)
      else match menuApi n with
        | none => menuLoop clock fuel m
        | some api => match (m.sessions.setState 0 api).request 0 (clock m.sessions.sent.length) with
          | .error e => some (.error (.context e))
          | .ok s => menuLoop clock fuel { m with sessions := s }

def menuInfo : SessionInfo := .of .seoulDraft "WSL"

/-- `main` up to the loop.  The server of `set_ST_gRPC` has no part in it. -/
def menuStart (input : List Char) : Menu :=
  ⟨⟨input, false, false⟩, none, (Sessions.init.construct 0 menuInfo).setTsGrpc 0⟩

/-- `main` up to `unsetGRPC`. -/
def clientMain (clock : Nat → Int) (fuel : Nat) (input : List Char) : Option (Except MenuFault Menu) :=
  menuLoop clock fuel (menuStart input)

/-- The requests for some APIs in a row, the first one as the `k`-th of all. -/
def menuRequests (clock : Nat → Int) : Nat → List Api → List (Nat × Rpc)
  | _, [] => []
  | k, api :: apis => (0, (doFn api).rpc menuInfo (clock k + 5000)) :: menuRequests clock (k + 1) apis

/-- `main` reaches `unsetGRPC` and has issued one request for each integer from 1 to 10 in the input before the first
zero or unreadable token. -/
def MenuEnds (clock : Nat → Int) (input : List Char) : Prop :=
  ∃ fuel m, clientMain clock fuel input = some (.ok m) ∧
    m.sessions.sent = menuRequests clock 0 ((integers input).1.filterMap menuApi)

/-! ### One round -/

/-- Context 0 has its client, and the static session info is that of `main`. -/
def Sessions.Ready (s : Sessions) : Prop := s.info = menuInfo ∧ ∃ ctx, s.contexts 0 = some ctx ∧ ctx.client = true

theorem Sessions.Ready.request {s : Sessions} (h : s.Ready) (api : Api) (now : Int) :
    ∃ s', (s.setState 0 api).request 0 now = .ok s' ∧ s'.Ready ∧
      s'.sent = s.sent ++ [(0, (doFn api).rpc menuInfo (now + 5000))] := by
  obtain ⟨hinfo, ctx, hctx, hclient⟩ := h
  have hset : (s.setState 0 api).contexts 0 = some { ctx with state := some api } := by
    simp [Sessions.setState, hctx]
  refine ⟨{ s.setState 0 api with sent := s.sent ++ [(0, (doFn api).rpc menuInfo (now + 5000))] }, ?_, ?_, rfl⟩
  · simp only [Sessions.request, hset, if_pos hclient]
    simp only [Sessions.handle, Sessions.setState, hinfo]
  · exact ⟨hinfo, _, hset, hclient⟩

theorem ready_start (input : List Char) : (menuStart input).sessions.Ready := by
  refine ⟨rfl, ⟨menuInfo, none, true⟩, ?_, rfl⟩
  simp [menuStart, Sessions.setTsGrpc, Sessions.construct]

theorem menuRequests_length (clock : Nat → Int) (k : Nat) (apis : List Api) :
    (menuRequests clock k apis).length = apis.length := by
  induction apis generalizing k with
  | nil => rfl
  | cons api apis ih => simp [menuRequests, ih]

private theorem menuRequests_append (clock : Nat → Int) (k : Nat) (apis apis' : List Api) :
    menuRequests clock k (apis ++ apis') = menuRequests clock k apis ++
      menuRequests clock (k + apis.length) apis' := by
  induction apis generalizing k with
  | nil => rfl
  | cons api apis ih =>
    have hnext : k + 1 + apis.length = k + (apis.length + 1) := by omega
    simp [menuRequests, ih, hnext]

section

variable (clock : Nat → Int) {m : Menu}

/-- A round that reads zero is the last. -/
theorem menuLoop_zero (h : (extractInt m.cin m.num).2 = some 0) (fuel : Nat) :
    ∃ m', menuLoop clock (fuel + 1) m = some (.ok m') ∧ m'.sessions = m.sessions := by
  refine ⟨{ m with cin := (extractInt m.cin m.num).1, num := some 0 }, ?_, rfl⟩
  simp [menuLoop, h]

/-- A round that reads another integer issues the request of that number, if there is one. -/
theorem menuLoop_next {cin : Istream} {n : Int} (h : extractInt m.cin m.num = (cin, some n)) (hn : n ≠ 0)
    (hready : m.sessions.Ready) :
    ∃ s, s.Ready ∧ s.sent = m.sessions.sent ++ menuRequests clock m.sessions.sent.length (menuApi n).toList ∧
      ∀ fuel, menuLoop clock (fuel + 1) m = menuLoop clock fuel ⟨cin, some n, s⟩ := by
  cases hapi : menuApi n with
  | none =>
    refine ⟨m.sessions, hready, by simp [menuRequests], fun fuel => ?_⟩
    simp only [menuLoop, h, if_neg hn, hapi]
  | some api =>
    obtain ⟨s, hs, hready', hsent⟩ := hready.request api (clock m.sessions.sent.length)
    refine ⟨s, hready', hsent, fun fuel => ?_⟩
    simp only [menuLoop, h, if_neg hn, hapi, hs]

/-- Once the stream has failed the loop goes on with the number it has. -/
theorem menuLoop_failing (hready : m.sessions.Ready) {cin : Istream} {num : Option Int}
    (hread : extractInt m.cin m.num = (cin, num)) (hfail : cin.fail = true) (hnum : num ≠ some 0) (fuel : Nat)
    (m' : Menu) : menuLoop clock fuel m ≠ some (.ok m') := by
  induction fuel generalizing m with
  | zero => simp [menuLoop]
  | succ fuel ih =>
    cases num with
    | none => simp [menuLoop, hread]
    | some n =>
      have hn : n ≠ 0 := fun h => hnum (congrArg some h)
      obtain ⟨s, hready', -, hloop⟩ := menuLoop_next clock hread hn hready
      rw [hloop]
      exact ih hready' (extractInt_failed _ hfail)

/-! ### The loop over an input -/

theorem menuLoop_stops (hready : m.sessions.Ready) (hcin : m.cin.Readable) {n : Nat} (hn : m.cin.text.length < n)
    (hstops : (scan n m.cin.text).2.stops = true) :
    ∃ fuel m', menuLoop clock fuel m = some (.ok m') ∧ m'.sessions.sent =
      m.sessions.sent ++ menuRequests clock m.sessions.sent.length ((scan n m.cin.text).1.filterMap menuApi) := by
  induction n generalizing m with
  | zero => exact absurd hn (Nat.not_lt_zero _)
  | succ n ih =>
    rcases hcin.scan_cases m.num n with ⟨-, hgoes, -⟩ | ⟨hnil, -, hzero⟩ | ⟨cin, v, hv, hread, hcin', hlt, hscan⟩
    · rw [hgoes] at hstops
      cases hstops
    · obtain ⟨m', hm', hsessions⟩ := menuLoop_zero clock hzero 0
      refine ⟨1, m', hm', ?_⟩
      rw [hsessions, hnil]
      exact (List.append_nil _).symm
    · obtain ⟨s, hready', hsent, hloop⟩ := menuLoop_next clock hread hv hready
      rw [hscan] at hstops ⊢
      obtain ⟨fuel, m', hm', hsent'⟩ := ih (m := ⟨cin, some v, s⟩) hready' hcin'
        (Nat.lt_of_lt_of_le hlt (Nat.le_of_lt_succ hn)) hstops
      refine ⟨fuel + 1, m', by rw [hloop, hm'], ?_⟩
      have hfilter : (v :: (scan n cin.text).1).filterMap menuApi =
          (menuApi v).toList ++ (scan n cin.text).1.filterMap menuApi := by
        cases hapi : menuApi v <;> simp [hapi]
      rw [hsent', hsent, hfilter, menuRequests_append, List.length_append, menuRequests_length, List.append_assoc]

theorem menuLoop_endless (hready : m.sessions.Ready) (hcin : m.cin.Readable) (hnum : m.num ≠ some 0) {n : Nat}
    (hn : m.cin.text.length < n) (hgoes : (scan n m.cin.text).2.stops = false) (fuel : Nat) (m' : Menu) :
    menuLoop clock fuel m ≠ some (.ok m') := by
  induction n generalizing m fuel with
  | zero => exact absurd hn (Nat.not_lt_zero _)
  | succ n ih =>
    -- The stream fails, or a zero comes, or the loop goes round once more on a shorter text.
    rcases hcin.scan_cases m.num n with ⟨-, -, hfail, hlast⟩ | ⟨-, hstops, -⟩ | ⟨cin, v, hv, hread, hcin', hlt, hscan⟩
    -- What a failed extraction leaves in `num` is what was there or a limit of `int`, and no zero.
    · have hlast' : (extractInt m.cin m.num).2 ≠ some 0 := by
        rcases hlast with h | h | h
        · rw [h]
          exact hnum
        · rw [h]
          decide
        · rw [h]
          decide
      exact menuLoop_failing clock hready rfl hfail hlast' fuel m'
    · rw [hstops] at hgoes
      cases hgoes
    · cases fuel with
      | zero => simp [menuLoop]
      | succ fuel =>
        obtain ⟨s, hready', -, hloop⟩ := menuLoop_next clock hread hv hready
        rw [hscan] at hgoes
        rw [hloop]
        exact ih (m := ⟨cin, some v, s⟩) hready' hcin' (fun h => hv (Option.some.inj h))
          (Nat.lt_of_lt_of_le hlt (Nat.le_of_lt_succ hn)) hgoes fuel

end

theorem readable_start (input : List Char) : (menuStart input).cin.Readable :=
  ⟨rfl, fun heof => Bool.noConfusion heof⟩

/-- The loop ends, with one request for each number asked for, exactly on the inputs in which a zero or an unreadable
token comes before the end and before a number that is no `int`. -/
theorem menuEnds_iff (clock : Nat → Int) (input : List Char) :
    MenuEnds clock input ↔ (integers input).2.stops = true := by
  have hready := ready_start input
  have hcin := readable_start input
  have hlength : (menuStart input).cin.text.length < input.length + 1 := Nat.lt_succ_self _
  constructor
  · rintro ⟨fuel, m, hm, -⟩
    cases hstops : (integers input).2.stops with
    | true => rfl
    | false => exact absurd hm (menuLoop_endless clock hready hcin (by simp [menuStart]) hlength hstops fuel m)
  · intro hstops
    obtain ⟨fuel, m, hm, hsent⟩ := menuLoop_stops clock hready hcin hlength hstops
    exact ⟨fuel, m, hm, hsent⟩

/-- After a one and the end of the input the loop goes on with the one. -/
theorem oneThenEnd_endless : ¬ ∀ clock input, MenuEnds clock input := by
  intro h
  obtain ⟨fuel, m, hm, -⟩ := h (fun _ => 0) "1\n".toList
  have hgoes : (scan 3 (menuStart "1\n".toList).cin.text).2.stops = false := by decide
  exact menuLoop_endless _ (ready_start _) (readable_start _) (by simp [menuStart]) (by decide) hgoes fuel m hm

end Cloudein
