import DsparkEdge.Lib.Texts
import Mathlib.Data.List.DropRight

/-! `server_patches/apply_remote_dspark.py`, the script that adds the remote drafter to the server's
    sources. Every patch reads a file, puts it through a chain of string replacements, most of them behind
    a test for what they bring in, and writes it back:

        common.h, speculative.cpp, arg.cpp, common/CMakeLists.txt, server-schema.cpp,
        server/CMakeLists.txt, server-context.h, server-context.cpp (twice), server.cpp

    A file is the sequence of its characters; Python's text mode turns its line ends into `\n` when it is
    read. The server's schema and its CMake file are skipped where they do not exist. -/

namespace DsparkEdge

open Texts

abbrev Text := List Char

/-- The characters of a literal; a brace is written `\x7b` or `\x7d`. -/
def chars {l : List Char} (s : String) (_ : String.ofList l = s) : Text := l

example : chars "n_max" rfl = ['n', '_', 'm', 'a', 'x'] := rfl

/-- `f.read()` of a file opened as text. -/
def readText : List Char → Text
  | [] => []
  | '\r' :: '\n' :: s => '\n' :: readText s
  | '\r' :: s => '\n' :: readText s
  | c :: s => c :: readText s

def remoteType : Text := chars "COMMON_SPECULATIVE_TYPE_DRAFT_REMOTE_DSPARK" rfl

/-! ### `patch_common_h` -/

def enumNeedle : Text :=
  chars "COMMON_SPECULATIVE_TYPE_DRAFT_DSPARK,  // DSpark speculative decoding (DFlash + Markov head)" rfl

def enumEntry : Text :=
  chars "\n    COMMON_SPECULATIVE_TYPE_DRAFT_REMOTE_DSPARK, // remote DSpark drafter over gRPC" rfl

def confMin : Text :=
  chars "    float conf_min = 0.0f; // DSpark: min predicted acceptance from the confidence head (0 = disabled)" rfl

def remoteField : Text :=
  chars "\n\n    std::string remote_grpc; // draft-remote-dspark: edge daemon host:port" rfl

def oldLambda : Text :=
  chars "return t == COMMON_SPECULATIVE_TYPE_DRAFT_MTP || " rfl ++
    chars "t == COMMON_SPECULATIVE_TYPE_DRAFT_EAGLE3 || " rfl ++
    chars "t == COMMON_SPECULATIVE_TYPE_DRAFT_DFLASH || " rfl ++
    chars "t == COMMON_SPECULATIVE_TYPE_DRAFT_DSPARK;" rfl

def newLambda : Text :=
  chars "return t == COMMON_SPECULATIVE_TYPE_DRAFT_MTP || " rfl ++
    chars "t == COMMON_SPECULATIVE_TYPE_DRAFT_EAGLE3 || " rfl ++
    chars "t == COMMON_SPECULATIVE_TYPE_DRAFT_DFLASH || " rfl ++
    chars "t == COMMON_SPECULATIVE_TYPE_DRAFT_DSPARK || " rfl ++
    chars "t == COMMON_SPECULATIVE_TYPE_DRAFT_REMOTE_DSPARK;" rfl

def remoteGrpc : Text := chars "remote_grpc" rfl

def editCommonH (s : Text) : Text :=
  let s := if occurs enumNeedle s && !occurs remoteType s then
    replaceAll enumNeedle (enumNeedle ++ enumEntry) s else s
  let s := if !occurs remoteGrpc s then replaceAll confMin (confMin ++ remoteField) s else s
  if occurs oldLambda s then replaceAll oldLambda newLambda s else s

/-! ### `patch_speculative_cpp` -/

def remoteName : Text := chars "draft-remote-dspark" rfl

def mapEntry : Text := chars "\x7b\"draft-dspark\",  COMMON_SPECULATIVE_TYPE_DRAFT_DSPARK\x7d," rfl

def remoteMapEntry : Text :=
  chars "\n    \x7b\"draft-remote-dspark\", COMMON_SPECULATIVE_TYPE_DRAFT_REMOTE_DSPARK\x7d," rfl

def nameCase : Text := chars "case COMMON_SPECULATIVE_TYPE_DRAFT_DSPARK:  return \"draft-dspark\";" rfl

def remoteNameCase : Text :=
  chars "\n        case COMMON_SPECULATIVE_TYPE_DRAFT_REMOTE_DSPARK: return \"draft-remote-dspark\";" rfl

def countHead : Text := chars "static_assert(COMMON_SPECULATIVE_TYPE_COUNT == " rfl

def countTail : Text := chars ");" rfl

def newCount : Text := chars "12" rfl

/-- The zeros of the decimal digits of Unicode 15, which `\d` matches. -/
def decimalZeros : List ℕ :=
  [0x0030, 0x0660, 0x06F0, 0x07C0, 0x0966, 0x09E6, 0x0A66, 0x0AE6, 0x0B66, 0x0BE6, 0x0C66, 0x0CE6, 0x0D66,
    0x0DE6, 0x0E50, 0x0ED0, 0x0F20, 0x1040, 0x1090, 0x17E0, 0x1810, 0x1946, 0x19D0, 0x1A80, 0x1A90, 0x1B50,
    0x1BB0, 0x1C40, 0x1C50, 0xA620, 0xA8D0, 0xA900, 0xA9D0, 0xA9F0, 0xAA50, 0xABF0, 0xFF10, 0x104A0, 0x10D30,
    0x11066, 0x110F0, 0x11136, 0x111D0, 0x112F0, 0x11450, 0x114D0, 0x11650, 0x116C0, 0x11730, 0x118E0,
    0x11950, 0x11C50, 0x11D50, 0x11DA0, 0x11F50, 0x16A60, 0x16AC0, 0x16B50, 0x1D7CE, 0x1D7D8, 0x1D7E2,
    0x1D7EC, 0x1D7F6, 0x1E140, 0x1E2F0, 0x1E4F0, 0x1E950, 0x1FBF0]

def isDecimal (c : Char) : Bool := decimalZeros.any fun z => z ≤ c.toNat && c.toNat < z + 10

/-- `static_assert\(COMMON_SPECULATIVE_TYPE_COUNT == \d+\);` at the beginning of a text: the digits. -/
def assertedCount (t : Text) : Option Text :=
  if countHead.isPrefixOf t then
    let ds := (t.drop countHead.length).takeWhile isDecimal
    if !ds.isEmpty && countTail.isPrefixOf (t.drop (countHead ++ ds).length) then some ds else none
  else none

/-- `re.sub` of the first such assertion. -/
def bumpCount : Text → Text
  | [] => []
  | c :: s =>
    match assertedCount (c :: s) with
    | some ds => countHead ++ newCount ++ countTail ++ (c :: s).drop (countHead ++ ds ++ countTail).length
    | none => c :: bumpCount s

def hasRemote : Text := chars "has_draft_remote_dspark" rfl

def hasLine : Text :=
  chars "bool has_draft_dspark = (enabled_configs & (1u << COMMON_SPECULATIVE_TYPE_DRAFT_DSPARK)) && params.draft.ctx_dft != nullptr;" rfl

def hasRemoteLine : Text :=
  chars "\n        bool has_draft_remote_dspark = " rfl ++
    chars "(enabled_configs & (1u << COMMON_SPECULATIVE_TYPE_DRAFT_REMOTE_DSPARK)) && !params.draft.remote_grpc.empty();" rfl

def pushBlock : Text :=
  chars "if (has_draft_dspark) \x7b\n" rfl ++
    chars "            configs.push_back(common_speculative_config(COMMON_SPECULATIVE_TYPE_DRAFT_DSPARK, params));\n        \x7d" rfl

def remotePushBlock : Text :=
  chars "\n        if (has_draft_remote_dspark) \x7b\n" rfl ++
    chars "            configs.push_back(common_speculative_config(COMMON_SPECULATIVE_TYPE_DRAFT_REMOTE_DSPARK, params));\n" rfl ++
    chars "        \x7d" rfl

def incCommon : Text := chars "#include \"common.h\"\n" rfl

def incDrafter : Text := chars "#include \"dspark_drafter.h\"\n" rfl

def incImpl : Text := chars "#include \"remote_dspark_impl.h\"\n" rfl

def mtpMarker : Text := chars "struct common_speculative_impl_draft_mtp : public common_speculative_impl \x7b" rfl

def nMaxCases : Text :=
  chars "            case COMMON_SPECULATIVE_TYPE_DRAFT_DFLASH:\n" rfl ++
    chars "            case COMMON_SPECULATIVE_TYPE_DRAFT_DSPARK:\n" rfl

def nMaxRemoteCase : Text := chars "            case COMMON_SPECULATIVE_TYPE_DRAFT_REMOTE_DSPARK:\n" rfl

def nMaxBody : Text :=
  chars "                n_max = std::max(n_max, std::max(0, spec->draft.n_max));\n" rfl ++
    chars "                break;" rfl

def nMaxBlock : Text := nMaxCases ++ nMaxBody

def nMaxBlockNew : Text := nMaxCases ++ nMaxRemoteCase ++ nMaxBody

def indent : Text := chars "            " rfl

def simpleMarker : Text := chars "case COMMON_SPECULATIVE_TYPE_NGRAM_SIMPLE: \x7b" rfl

def remoteImpl : Text := chars "common_speculative_impl_draft_remote_dspark" rfl

def remoteInitCase : Text :=
  chars "case COMMON_SPECULATIVE_TYPE_DRAFT_REMOTE_DSPARK: \x7b\n" rfl ++
    chars "                impls.push_back(std::make_unique<common_speculative_impl_draft_remote_dspark>(config.params, n_seq));\n" rfl ++
    chars "                break;\n" rfl ++
    chars "            \x7d\n" rfl

def initCase : Text := indent ++ remoteInitCase ++ indent

def dsparkBlockSize : Text := chars "dspark.block_size" rfl

def blockSizeIf : Text := chars "            if (" rfl

def dsparkTest : Text :=
  chars "llama_model_meta_val_str(model_dft, \"dspark.block_size\", buf, sizeof(buf)) >= 0 ||\n                " rfl

def dflashTest : Text :=
  chars "llama_model_meta_val_str(model_dft, \"dflash.block_size\", buf, sizeof(buf)) >= 0) \x7b" rfl

def oldBs : Text := blockSizeIf ++ dflashTest

def newBs : Text := blockSizeIf ++ dsparkTest ++ dflashTest

def editTypeNames (s : Text) : Text :=
  if !occurs remoteName s then
    let s := replaceAll mapEntry (mapEntry ++ remoteMapEntry) s
    replaceAll nameCase (nameCase ++ remoteNameCase) s
  else s

def editCount (s : Text) : Text := if occurs remoteType s then bumpCount s else s

def editInit (s : Text) : Text :=
  let s := if !occurs hasRemote s then
    let s := replaceAll hasLine (hasLine ++ hasRemoteLine) s
    replaceAll pushBlock (pushBlock ++ remotePushBlock) s
  else s
  let s := if !occurs incDrafter s then replaceFirst incCommon (incCommon ++ incDrafter) s else s
  let s := if !occurs incImpl s then
    if occurs mtpMarker s then replaceFirst mtpMarker (incImpl ++ mtpMarker) s else s
  else s
  let s := if occurs nMaxBlock s then replaceAll nMaxBlock nMaxBlockNew s else s
  let s := if !occurs remoteImpl s then
    if occurs simpleMarker s then replaceAll (indent ++ simpleMarker) (initCase ++ simpleMarker) s else s
  else s
  if !occurs dsparkBlockSize s && occurs oldBs s then replaceAll oldBs newBs s else s

/-- The type names, the count, and the rest of the function. -/
def editSpeculativeCpp (s : Text) : Text := editInit (editCount (editTypeNames s))

/-! ### `patch_arg_cpp`, `patch_server_schema` -/

def remoteGrpcFlag : Text := chars "--spec-draft-remote-grpc" rfl

def argInsert : Text :=
  chars "    add_opt(common_arg(\n" rfl ++
    chars "        \x7b\"--spec-draft-remote-grpc\"\x7d, \"HOST:PORT\",\n" rfl ++
    chars "        \"remote DSpark drafter gRPC target (default: none)\",\n" rfl ++
    chars "        [](common_params & params, const std::string & value) \x7b\n" rfl ++
    chars "            params.speculative.draft.remote_grpc = value;\n" rfl ++
    chars "        \x7d\n" rfl ++
    chars "    ).set_spec().set_examples(\x7bLLAMA_EXAMPLE_SPECULATIVE, LLAMA_EXAMPLE_SERVER, LLAMA_EXAMPLE_CLI\x7d)" rfl ++
    chars ".set_env(\"LLAMA_ARG_SPEC_DRAFT_REMOTE_GRPC\"));\n" rfl

def confMinArg : Text := chars "    add_opt(common_arg(\n        \x7b\"--spec-draft-conf-min\"\x7d, \"P\"," rfl

def editArgCpp (s : Text) : Text :=
  if !occurs remoteGrpcFlag s then
    replaceAll confMinArg (argInsert ++ confMinArg) s else s

def schemaEntry : Text := chars "\"draft-dspark\"," rfl

def remoteSchemaEntry : Text := chars "\"draft-remote-dspark\"," rfl

def editServerSchema (s : Text) : Text :=
  if !occurs remoteName s then
    replaceAll schemaEntry (schemaEntry ++ remoteSchemaEntry) s else s

/-! ### `patch_common_cmake`, `patch_server_cmake` -/

def clientCpp : Text := chars "remote_dspark_client.cpp" rfl

def speculativeSource : Text := chars "speculative.cpp" rfl

def clientSource : Text := chars "\n        remote_dspark_client.cpp" rfl

def dsparkPb : Text := chars "dspark.pb.cc" rfl

def protoSources : Text := chars "\n        dspark.pb.cc\n        dspark.grpc.pb.cc" rfl

def grpcLink : Text := chars "gRPC::grpc++" rfl

def findGrpc : Text := chars "find_package(gRPC" rfl

def findPackages : Text :=
  chars "find_package(gRPC CONFIG REQUIRED)\n" rfl ++ chars "find_package(Protobuf CONFIG REQUIRED)\n\n" rfl

def linkGrpc : Text :=
  chars "\n\ntarget_link_libraries($\x7bTARGET\x7d PRIVATE gRPC::grpc++ protobuf::libprotobuf)\n" rfl

/-- What `str.rstrip()` strips. -/
def isStripped (c : Char) : Bool :=
  let n := c.toNat
  (0x09 ≤ n && n ≤ 0x0D) || (0x1C ≤ n && n ≤ 0x20) || n = 0x85 || n = 0xA0 || n = 0x1680 ||
    (0x2000 ≤ n && n ≤ 0x200A) || n = 0x2028 || n = 0x2029 || n = 0x202F || n = 0x205F || n = 0x3000

def editCMakeSources (s : Text) : Text :=
  let s := if !occurs clientCpp s then
    replaceFirst speculativeSource (speculativeSource ++ clientSource) s
  else s
  if !occurs dsparkPb s then replaceFirst clientCpp (clientCpp ++ protoSources) s else s

def editCMakeLink (s : Text) : Text :=
  if !occurs grpcLink s && !occurs findGrpc s then (findPackages ++ s).rdropWhile isStripped ++ linkGrpc
  else s

def editCommonCMake (s : Text) : Text := editCMakeLink (editCMakeSources s)

def linkTarget : Text := chars "target_link_libraries($\x7bTARGET\x7d PRIVATE" rfl

def grpcLinkLine : Text := chars "\n    gRPC::grpc++" rfl

def editServerCMake (s : Text) : Text :=
  if !occurs grpcLink s then replaceFirst linkTarget (linkTarget ++ grpcLinkLine) s else s

/-! ### `patch_debug_spec_endpoint` -/

def getMetrics : Text := chars "    server_http_context::handler_t get_metrics;" rfl

def getDebugSpec : Text := chars "get_debug_spec" rfl

def debugMember : Text := chars "\n    server_http_context::handler_t get_debug_spec;" rfl

def editServerContextH (s : Text) : Text :=
  replaceFirst getMetrics (getMetrics ++ debugMember) s

def incStats : Text := chars "#include \"dspark_stats.h\"" rfl

def incStatsLine : Text := chars "#include \"dspark_stats.h\"\n" rfl

def incContext : Text := chars "#include \"server-context.h\"\n" rfl

def thisDebugSpec : Text := chars "this->get_debug_spec" rfl

def metricsHandler : Text := chars "    this->get_metrics = [this](const server_http_req & req) \x7b" rfl

def debugHandler : Text :=
  chars "    this->get_debug_spec = [this](const server_http_req &) \x7b\n" rfl ++
    chars "        auto res = create_response(true);\n" rfl ++
    chars "        const auto & st = remote_dspark_stats_get();\n" rfl ++
    chars "        const uint64_t blocks = st.draft_blocks.load();\n" rfl ++
    chars "        const uint64_t dtoks  = st.draft_tokens.load();\n" rfl ++
    chars "        const uint64_t atoks  = st.accepted_tokens.load();\n" rfl ++
    chars "        const uint64_t gcalls = st.grpc_calls.load();\n" rfl ++
    chars "        const double acc_rate = dtoks  ? (double) atoks / (double) dtoks : 0.0;\n" rfl ++
    chars "        const double edge_ms  = blocks ? (double) st.edge_draft_us_sum.load() / (double) blocks / 1000.0 : 0.0;\n" rfl ++
    chars "        const double grpc_ms  = gcalls ? (double) st.grpc_us_sum.load() / (double) gcalls / 1000.0 : 0.0;\n" rfl ++
    chars "        res->ok(\x7b\n" rfl ++
    chars "            \x7b \"remote_dspark\",     st.connected.load() ? \"connected\" : \"disconnected\" \x7d,\n" rfl ++
    chars "            \x7b \"edge_host\",         st.edge_host \x7d,\n" rfl ++
    chars "            \x7b \"draft_blocks\",      blocks \x7d,\n" rfl ++
    chars "            \x7b \"draft_tokens\",      dtoks \x7d,\n" rfl ++
    chars "            \x7b \"accepted_tokens\",   atoks \x7d,\n" rfl ++
    chars "            \x7b \"acceptance_rate\",   acc_rate \x7d,\n" rfl ++
    chars "            \x7b \"avg_edge_draft_ms\", edge_ms \x7d,\n" rfl ++
    chars "            \x7b \"avg_grpc_ms\",       grpc_ms \x7d,\n" rfl ++
    chars "            \x7b \"fallback_steps\",    st.fallback_steps.load() \x7d,\n" rfl ++
    chars "        \x7d);\n" rfl ++
    chars "        return res;\n" rfl ++
    chars "    \x7d;\n\n" rfl

def editDebugSpec (s : Text) : Text :=
  let s := if !occurs incStats s then
    replaceFirst incContext (incContext ++ incStatsLine) s
  else s
  if !occurs thisDebugSpec s then
    replaceFirst metricsHandler (debugHandler ++ metricsHandler) s else s

def debugPath : Text := chars "/debug/spec" rfl

def metricsRoute : Text :=
  chars "    ctx_http.get (\"/metrics\",                  ex_wrapper(routes.get_metrics));" rfl

def debugRoute : Text :=
  chars "\n    ctx_http.get (\"/debug/spec\",               ex_wrapper(routes.get_debug_spec));" rfl

def editServerCpp (s : Text) : Text :=
  if !occurs debugPath s then replaceFirst metricsRoute (metricsRoute ++ debugRoute) s else s

/-! ### `patch_server_ctx_tgt` -/

def hasRemoteDspark : Text := chars "has_remote_dspark" rfl

def hasSpec : Text := chars "        const bool has_spec = has_draft || spec_mtp;\n" rfl

def hasSpecNew : Text :=
  chars "        const bool has_remote_dspark = !params_base.speculative.draft.remote_grpc.empty();\n" rfl ++
    chars "        const bool has_spec = has_draft || spec_mtp || has_remote_dspark;\n" rfl

def loadMarker : Text :=
  chars "            \x7b\n" rfl ++
    chars "                common_params params_dft = common_base_params_to_speculative(params_base);\n" rfl

def loadGuarded : Text :=
  chars "            params_base.speculative.draft.ctx_tgt = ctx_tgt;\n\n" rfl ++
    chars "            // A local draft model (draft/MTP) needs loading here; the remote\n" rfl ++
    chars "            // DSpark drafter has no local draft model, so it only needs ctx_tgt\n" rfl ++
    chars "            // (set above) and skips this block.\n" rfl ++
    chars "            if (has_draft || spec_mtp) \x7b\n" rfl ++
    chars "                common_params params_dft = common_base_params_to_speculative(params_base);\n" rfl

def setCtxTgt : Text := chars "                params_base.speculative.draft.ctx_tgt = ctx_tgt;\n" rfl

def setCtxDft : Text := chars "                params_base.speculative.draft.ctx_dft = ctx_dft;\n" rfl

def editHasSpec (s : Text) : Text :=
  if !occurs hasRemoteDspark s then replaceFirst hasSpec hasSpecNew s else s

def editLoad (s : Text) : Text :=
  if occurs loadMarker s then
    let s := replaceFirst loadMarker loadGuarded s
    replaceFirst (setCtxTgt ++ setCtxDft) setCtxDft s
  else s

def editServerCtxTgt (s : Text) : Text := editLoad (editHasSpec s)

/-! ### The script -/

/-- The files the patches change. -/
structure LlamaTree where
  commonH : List Char
  speculativeCpp : List Char
  argCpp : List Char
  commonCMake : List Char
  serverSchema : Option (List Char)
  serverCMake : Option (List Char)
  serverContextH : List Char
  serverContextCpp : List Char
  serverCpp : List Char
  deriving DecidableEq

namespace LlamaTree

def patchCommonH (t : LlamaTree) : LlamaTree := { t with commonH := editCommonH (readText t.commonH) }

def patchSpeculativeCpp (t : LlamaTree) : LlamaTree :=
  { t with speculativeCpp := editSpeculativeCpp (readText t.speculativeCpp) }

def patchArgCpp (t : LlamaTree) : LlamaTree := { t with argCpp := editArgCpp (readText t.argCpp) }

def patchCommonCMake (t : LlamaTree) : LlamaTree :=
  { t with commonCMake := editCommonCMake (readText t.commonCMake) }

def patchServerSchema (t : LlamaTree) : LlamaTree :=
  { t with serverSchema := t.serverSchema.map fun f => editServerSchema (readText f) }

def patchServerCMake (t : LlamaTree) : LlamaTree :=
  { t with serverCMake := t.serverCMake.map fun f => editServerCMake (readText f) }

/-- The header is only written if it is edited. -/
def patchDebugSpecEndpoint (t : LlamaTree) : LlamaTree :=
  let h := readText t.serverContextH
  { t with
    serverContextH := if !occurs getDebugSpec h then editServerContextH h else t.serverContextH
    serverContextCpp := editDebugSpec (readText t.serverContextCpp)
    serverCpp := editServerCpp (readText t.serverCpp) }

def patchServerCtxTgt (t : LlamaTree) : LlamaTree :=
  { t with serverContextCpp := editServerCtxTgt (readText t.serverContextCpp) }

end LlamaTree

/-- The patches of `main()`, in its order. -/
def applyRemoteDspark (t : LlamaTree) : LlamaTree :=
  let t := t.patchCommonH
  let t := t.patchSpeculativeCpp
  let t := t.patchArgCpp
  let t := t.patchCommonCMake
  let t := t.patchServerSchema
  let t := t.patchServerCMake
  let t := t.patchDebugSpecEndpoint
  t.patchServerCtxTgt

end DsparkEdge
