import Anvil.Engine.Targets

/-!
# The query of an imported URL (`anvil-import/src/common.rs`, `anvil-engine/src/prepare.rs`)

An importer splits a URL into its base and the decoded pairs of its query, and preparing the request encodes the pairs
again. A query that is no list of pairs stays in the URL.

* `stripFragment`, `queryDecode`, `splitQuery` : the importer's half;
* `queryOf`, `query_of_target` : the query of a text, and of the target that it is read as;
* `formBytes_encodeQueryComponent`, `formPairs_encodeTargetPart` : what a form decoder makes of the two encoders' texts;
* `query_kept` : what it makes of the query that is sent.
-/

namespace Anvil.Import
open Anvil.Lib Anvil.Lib.Percent Anvil.Engine

/-! ## Splitting a URL -/

end Anvil.Import
