import Burrow.Http.Format
import Burrow.Lib.Machine

/-!
# The HTTP backend

`burrow_backend_st` of `curl_backend.c`, its constructor and its options. The handles
of libcurl are left out: what libcurl answers is given to the functions that ask it.
A character of a string stands for one `char`. A `BurrowBackend` is `Reachable` if it
comes from the constructor by options being set and commands executed; its base URL is
then as long as it says.
-/

set_option autoImplicit false

namespace Burrow.Http

open CBuffer (zeros)

/-- `burrow_backend_st`, without the handles. `buffer` is what the user buffer holds. -/
structure BurrowBackend where
  proto : String
  protoLen : Nat
  protoVersion : String
  protoVersionLen : Nat
  port : String
  portLen : Nat
  server : Option String
  serverLen : Nat
  baseurl : Option String
  baseurlLen : Nat
  buffer : Option (List UInt8)
  getBodyOnly : Bool
deriving DecidableEq, Repr

/-- `burrow_backend_http_create` -/
def burrowBackendHttpCreate : BurrowBackend :=
  { proto := "http"
    protoLen := 4
    protoVersion := "v1.0"
    protoVersionLen := 4
    port := ""
    portLen := 0
    server := none
    serverLen := 0
    baseurl := none
    baseurlLen := 0
    buffer := none
    getBodyOnly := false }

/-! ## Options -/

/-- The last part of `burrow_backend_http_set_option`, which an option that affects the
URL leads to. -/
def buildBaseurl (alloc : Bool) (backend : BurrowBackend) :
    Except HttpFault (Int × BurrowBackend) :=
  match backend.server with
  | none => .ok (0, backend)
  | some server =>
      if backend.portLen ≠ 0 ∧ backend.protoLen ≠ 0 then
        let lenurl := backend.protoLen + server.length + backend.portLen + 20
        if alloc then
          match snprintf (zeros lenurl) 0 lenurl
              (backend.proto ++ "://" ++ server ++ ":" ++ backend.port) with
          | .error fault => .error fault
          | .ok (cells, n) =>
              .ok (0, { backend with baseurl := some (readString cells), baseurlLen := n })
        else .ok (ENOMEM, { backend with baseurl := none })
      else .ok (0, backend)

/-- `burrow_backend_http_set_option`. It allocates a block for the server and one for the
base URL. -/
def burrowBackendHttpSetOption (allocServer allocUrl : Bool) (optionname value : String)
    (backend : BurrowBackend) : Except HttpFault (Int × BurrowBackend) :=
  if optionname = "server" then
    if allocServer then
      buildBaseurl allocUrl { backend with serverLen := value.length, server := some value }
    else .ok (ENOMEM, { backend with serverLen := value.length, server := none })
  else if optionname = "port" then
    -- `port` has 32 characters
    if value.length ≥ 32 - 1 then .ok (EINVAL, { backend with portLen := backend.port.length })
    else buildBaseurl allocUrl { backend with portLen := value.length, port := value }
  else .ok (EINVAL, backend)

/-! ## Reachable backends -/

/-- What changes a backend. A command leaves everything but two fields as it is. -/
inductive BackendLabel where
  | setOption (allocServer allocUrl : Bool) (optionname value : String)
  | command (buffer : Option (List UInt8)) (getBodyOnly : Bool)

def backendStep (label : BackendLabel) (backend : BurrowBackend) :
    Except HttpFault BurrowBackend :=
  match label with
  | .setOption allocServer allocUrl optionname value =>
      (burrowBackendHttpSetOption allocServer allocUrl optionname value backend).map Prod.snd
  | .command buffer getBodyOnly => .ok { backend with buffer := buffer, getBodyOnly := getBodyOnly }

def Reachable (backend : BurrowBackend) : Prop :=
  ∃ labels, Machine.run backendStep labels burrowBackendHttpCreate = .ok backend

/-- The lengths that a backend keeps are those of its strings. -/
structure BurrowBackend.WellFormed (backend : BurrowBackend) : Prop where
  proto : backend.proto = "http"
  protoLen : backend.protoLen = 4
  protoVersion : backend.protoVersion = "v1.0"
  protoVersionLen : backend.protoVersionLen = 4
  portLen : backend.portLen = backend.port.length
  baseurlLen : ∀ baseurl, backend.baseurl = some baseurl → backend.baseurlLen = baseurl.length

theorem create_wellFormed : burrowBackendHttpCreate.WellFormed := by
  constructor <;> first | rfl | exact fun _ h => absurd h (by simp [burrowBackendHttpCreate])

/-- The base URL has room in the block that is allocated for it. -/
theorem buildBaseurl_wellFormed {alloc : Bool} {backend backend' : BurrowBackend} {code : Int}
    (hbuild : buildBaseurl alloc backend = .ok (code, backend')) (h : backend.WellFormed) :
    backend'.WellFormed := by
  obtain ⟨hproto, hprotoLen, hversion, hversionLen, hportLen, hbaseurlLen⟩ := h
  unfold buildBaseurl at hbuild
  split at hbuild
  · cases hbuild
    exact ⟨hproto, hprotoLen, hversion, hversionLen, hportLen, hbaseurlLen⟩
  · next server _ =>
      split at hbuild
      · dsimp only at hbuild
        split at hbuild
        · split at hbuild
          · exact absurd hbuild (by simp)
          · next cells n hsnprintf =>
              cases hbuild
              have hlen : (backend.proto ++ "://" ++ server ++ ":" ++ backend.port).length <
                  backend.protoLen + server.length + backend.portLen + 20 := by
                rw [String.length_append, String.length_append, String.length_append,
                  String.length_append, hproto, hprotoLen, hportLen]
                have hseparators : "http".length + "://".length + ":".length = 8 := by decide
                omega
              obtain ⟨cells', hcells, hholds⟩ :=
                snprintf_zeros hlen (le_intMax_of_snprintf hsnprintf)
              rw [hsnprintf, Except.ok.injEq, Prod.mk.injEq] at hcells
              obtain ⟨rfl, rfl⟩ := hcells
              refine ⟨hproto, hprotoLen, hversion, hversionLen, hportLen, fun baseurl hurl => ?_⟩
              rw [← Option.some.inj hurl, hholds.readString_eq]
        · cases hbuild
          exact ⟨hproto, hprotoLen, hversion, hversionLen, hportLen, fun _ hurl => absurd hurl
            (by simp)⟩
      · cases hbuild
        exact ⟨hproto, hprotoLen, hversion, hversionLen, hportLen, hbaseurlLen⟩

theorem setOption_wellFormed {allocServer allocUrl : Bool} {optionname value : String}
    {backend backend' : BurrowBackend} {code : Int}
    (hset : burrowBackendHttpSetOption allocServer allocUrl optionname value backend =
      .ok (code, backend')) (h : backend.WellFormed) : backend'.WellFormed := by
  unfold burrowBackendHttpSetOption at hset
  split at hset
  · split at hset
    · exact buildBaseurl_wellFormed hset { h with }
    · cases hset
      exact { h with }
  · split at hset
    · split at hset
      · cases hset
        exact { h with portLen := rfl }
      · exact buildBaseurl_wellFormed hset { h with portLen := rfl }
    · cases hset
      exact h

theorem reachable_wellFormed {backend : BurrowBackend} (h : Reachable backend) :
    backend.WellFormed := by
  obtain ⟨labels, hrun⟩ := h
  have hstep : ∀ label (b b' : BurrowBackend), True → b.WellFormed →
      backendStep label b = .ok b' → b'.WellFormed := by
    intro label b b' _ hb hb'
    cases label with
    | setOption allocServer allocUrl optionname value =>
        rw [backendStep] at hb'
        cases hset : burrowBackendHttpSetOption allocServer allocUrl optionname value b with
        | error fault =>
            rw [hset] at hb'
            exact absurd hb' (by simp [Except.map])
        | ok result =>
            rw [hset] at hb'
            cases hb'
            exact setOption_wellFormed hset hb
    | command buffer getBodyOnly =>
        cases hb'
        exact { hb with }
  exact Machine.run_invariant backendStep hstep
    (Machine.along_of_forall backendStep (fun _ _ _ => trivial) _) create_wellFormed hrun

end Burrow.Http
