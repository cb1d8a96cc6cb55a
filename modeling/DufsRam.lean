import DufsRam.Browser.Queue
import DufsRam.DiskSpace.Accounting
import DufsRam.Download.Body
import DufsRam.Listing.Budget
import DufsRam.Listing.Revalidation
import DufsRam.Listing.Tagged
import DufsRam.Logger.Line
import DufsRam.Maintenance.Cleanup
import DufsRam.Maintenance.Expiry
import DufsRam.PathCoordinator.Admission
import DufsRam.PathCoordinator.Exclusion
import DufsRam.PathCoordinator.Order
import DufsRam.PathPolicy.Generated
import DufsRam.PathPolicy.Parse
import DufsRam.Purge.Queue
import DufsRam.RootedFs.Permission
import DufsRam.RootedFs.Racing
import DufsRam.Router.Agreement
import DufsRam.StateStore.Abandonment
import DufsRam.StateStore.AtMostOnce
import DufsRam.StateStore.Recovery
import DufsRam.Upload.Integrity
import DufsRam.Upload.Metadata
import DufsRam.Upload.Receive
import DufsRam.Tagging.Collect
