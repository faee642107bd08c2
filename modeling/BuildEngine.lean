import BuildEngine.Probe.Safety
import BuildEngine.Probe.Complete
import BuildEngine.Probe.Sections
import BuildEngine.Probe.Addresses
import BuildEngine.Probe.Walk
import BuildEngine.Probe.Main
import BuildEngine.Probe.LoaderRun
import BuildEngine.Python.Sitecustomize
import BuildEngine.Stage.History
import BuildEngine.Meson.Bootstrap
import BuildEngine.Meson.Converge
import BuildEngine.Pdfium.Variants
import BuildEngine.Pdfium.AlignedMemory
import BuildEngine.Pdfium.CfgBlocks
import BuildEngine.Pdfium.Source
import BuildEngine.Web.InstallAsset
import BuildEngine.Security.Views
import BuildEngine.Security.Revisions
import BuildEngine.Adapter.Tokenwise
import BuildEngine.Adapter.Compile
import BuildEngine.Adapter.LinkRun
import BuildEngine.Abseil.Verify
import BuildEngine.Base.Lines
import BuildEngine.Base.Resume
import BuildEngine.Base.Handles
import BuildEngine.Probe.ProbeOne
import BuildEngine.Base.Outline
import BuildEngine.Probe.TreeLog
import BuildEngine.Base.CMakeList
import BuildEngine.Stage.Configure
import BuildEngine.Stage.Configured
import BuildEngine.Base.NaturalOrder
import BuildEngine.Toolchain.Archive
import BuildEngine.Base.Interleave
import BuildEngine.Stage.Process
import BuildEngine.Stage.Parallel
import BuildEngine.Base.PurePath
import BuildEngine.Meson.Main
import BuildEngine.Meson.Session
import BuildEngine.Meson.Served
import BuildEngine.Meson.SearchPath
