import PodInstaller.ErrorModel
import PodInstaller.QuadletParse
import PodInstaller.PodmanArgs
import PodInstaller.QuadletPolicy
import PodInstaller.QuadletText
import PodInstaller.PodmanArgsLines
import PodInstaller.MountCsv
import PodInstaller.StdPath
import PodInstaller.Interaction
import PodInstaller.Syscalls
import PodInstaller.StagedArchive
import PodInstaller.Kernel
import PodInstaller.KernelLaws
import PodInstaller.RelyGuarantee
import PodInstaller.Installer
import PodInstaller.Deployment
import PodInstaller.Footprint
import PodInstaller.Interference
import PodInstaller.InstallerSpec
import PodInstaller.DeploymentSpec
import PodInstaller.PodmanArgsSpellings
import PodInstaller.ContainerSpec
import PodInstaller.ManagedLabel
import PodInstaller.CreateBody
import PodInstaller.Calls
import PodInstaller.SafeDirectories
import PodInstaller.FaultFree
import PodInstaller.KeyedStore
import PodInstaller.DryRun
import PodInstaller.Upload
import PodInstaller.ArchiveUpload
import PodInstaller.DerivedNames
import PodInstaller.UrlCodec
import PodInstaller.ContainerRequests
import PodInstaller.UrlPath
import PodInstaller.PodmanArgsQuoting
import PodInstaller.QuadletImage
import PodInstaller.StagedPath
import PodInstaller.Transitions
import PodInstaller.UnitJob
import PodInstaller.PathResolution
import PodInstaller.RouteTree
import PodInstaller.SocketPath
import PodInstaller.DeploymentLock
import PodInstaller.DeploymentEffect
import PodInstaller.InstallFailure
import PodInstaller.DeploymentRun
import PodInstaller.Rollback
import PodInstaller.DeploymentSuccess
import PodInstaller.PartialTransfers
import PodInstaller.RejectedUnit
import PodInstaller.AcceptedFiles
import PodInstaller.SerialDeployments
import PodInstaller.FallibleCalls
import PodInstaller.Systemctl
import PodInstaller.Processes
import PodInstaller.ProcessRuns
import PodInstaller.SystemctlRuns
import PodInstaller.Linking
import PodInstaller.LinkedDeployment
import PodInstaller.ServiceRequest
import PodInstaller.ServiceResponse
import PodInstaller.StagedFiles
import PodInstaller.Service
import PodInstaller.ServiceRuns
import PodInstaller.PodmanClient
